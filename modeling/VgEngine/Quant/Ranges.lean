import VgEngine.Quant.Rows
import VgEngine.Lib.Tiles

/-! The rows of a product do not depend on the ranges that they are computed in: the operations on
floats stay opaque, so that each row is the same expression in every split. -/
namespace VgEngine.Quant
open VgEngine.Lib VgEngine.Gguf

section Pairs

variable {F : Type*}

theorem forRows_succ {r r1 : Nat} (row : Nat → F) (h : r < r1) :
    forRows r r1 row = (r, row r) :: forRows (r + 1) r1 row := by
  rw [forRows, show r1 - r = r1 - (r + 1) + 1 by omega, List.range'_succ]
  rfl

theorem forRows_nil {r r1 : Nat} (row : Nat → F) (h : r1 ≤ r) : forRows r r1 row = [] := by
  rw [forRows, Nat.sub_eq_zero_of_le h]
  rfl

/-- The interleaved loop stores what the plain loop stores, when a pass computes the values of its
two rows: the last row of a range of odd length goes through the rest. -/
theorem forPairs_eq {pair : Nat → F × F} {row : Nat → F} {r1 r fuel : Nat}
    (h : ∀ r, pair r = (row r, row (r + 1))) (hr : r ≤ r1) (hr1 : r1 < 2 ^ 32)
    (hodd : r1 = 2 ^ 32 - 1 → (r1 - r) % 2 = 1) (hfuel : r1 - r < fuel) :
    forPairs r1 pair (fun r => forRows r r1 row) fuel r = some (forRows r r1 row) := by
  induction fuel generalizing r with
  | zero => omega
  | succ fuel ih =>
    have hnext : (r + 1) % 2 ^ 32 = r + 1 := Nat.mod_eq_of_lt (by omega)
    rw [forPairs, hnext]
    split_ifs with hlt
    · have hnext2 : (r + 2) % 2 ^ 32 = r + 2 := Nat.mod_eq_of_lt (by omega)
      rw [hnext2, ih (by omega) (by omega) (by omega), h, forRows_succ row (show r < r1 by omega),
        forRows_succ row hlt]
      rfl
    · rfl

/-- From an odd row on, the loop over pairs reaches the last `uint32_t`, whose successor is zero, and
starts again at row one. -/
theorem forPairs_overruns {pair : Nat → F × F} {rest : Nat → List (Nat × F)} {r : Nat}
    (hr : r < 2 ^ 32) (hodd : r % 2 = 1) (fuel : Nat) :
    forPairs (2 ^ 32 - 1) pair rest fuel r = none := by
  induction fuel generalizing r with
  | zero => rfl
  | succ fuel ih =>
    rw [forPairs, if_pos (by omega), ih (Nat.mod_lt _ (by decide)) (by omega)]
    rfl

theorem accumulate_congr [Zero F] {n : Nat} {f g : F → Nat → F} (h : ∀ acc, ∀ j < n, f acc j = g acc j) :
    accumulate n f = accumulate n g :=
  List.foldl_ext _ _ _ fun acc j hj => h acc j (List.mem_range.mp hj)

theorem mem_forRows {r0 r1 : Nat} {row : Nat → F} {s : Nat × F} :
    s ∈ forRows r0 r1 row ↔ r0 ≤ s.1 ∧ s.1 < r1 ∧ s.2 = row s.1 := by
  simp only [forRows, List.mem_map, List.mem_range'_1]
  constructor
  · rintro ⟨r, hr, rfl⟩
    exact ⟨hr.1, by dsimp only; omega, rfl⟩
  · rintro ⟨hlo, hhi, hval⟩
    exact ⟨s.1, ⟨hlo, by omega⟩, Prod.ext rfl hval.symm⟩

end Pairs

section Rows

variable {F : Type*} [Zero F] [Add F] [Mul F] [IntCast F] (fl : Floats F)
variable (W : Ptr) (x : Nat → F) (inDim : Nat)

/-- A pass over a byte in the tail loop of `rows_q4_0`. -/
def passQ4_0 (blk : BlockQ4_0) (xb : Nat → F) (sum : F) (j : Nat) : F :=
  let lo : Int := (((blk.qs j).toNat &&& 0x0F : Nat) : Int) - 8
  let hi : Int := (((blk.qs j).toNat >>> 4 : Nat) : Int) - 8
  sum + ((lo : F) * xb j + (hi : F) * xb (16 + j))

/-- A pass over a block. -/
def blockPassQ4_0 (row : Ptr) (acc : F) (b : Nat) : F :=
  let blk := blockQ4_0 (row.plus (b * 18))
  acc + vgHalfToFloat fl blk.d * accumulate 16 (passQ4_0 blk fun j => x (b * 32 + j))

/-- A row of the tail loop of `rows_q4_0`. -/
def rowQ4_0 (r : Nat) : F :=
  accumulate (inDim / 32) (blockPassQ4_0 fl x (W.plus (r * (inDim / 32) * 18)))

theorem rowsQ4_0_eq {r0 r1 fuel : Nat} (hr : r0 ≤ r1) (hr1 : r1 < 2 ^ 32)
    (hodd : r1 = 2 ^ 32 - 1 → (r1 - r0) % 2 = 1) (hfuel : r1 - r0 < fuel) :
    rowsQ4_0 fl W x inDim fuel r0 r1 = some (forRows r0 r1 (rowQ4_0 fl W x inDim)) := by
  refine forPairs_eq (fun r => ?_) hr hr1 hodd hfuel
  have hnext : (W.plus (r * (inDim / 32) * 18)).plus (inDim / 32 * 18) =
      W.plus ((r + 1) * (inDim / 32) * 18) := by
    rw [Ptr.plus_plus, ← Nat.add_mul, Nat.succ_mul]
  have hsum (b0 b1 : BlockQ4_0) (xb : Nat → F) :
      (List.range 16).foldl (fun s j => (passQ4_0 b0 xb s.1 j, passQ4_0 b1 xb s.2 j)) (0, 0) =
        (accumulate 16 (passQ4_0 b0 xb), accumulate 16 (passQ4_0 b1 xb)) :=
    foldl_prod (fun _ _ => rfl) _ _
  simp only [hnext]
  refine foldl_prod (f := blockPassQ4_0 fl x (W.plus (r * (inDim / 32) * 18)))
    (g := blockPassQ4_0 fl x (W.plus ((r + 1) * (inDim / 32) * 18))) (fun acc b => ?_) _ _
  exact Prod.ext (congrArg (acc.1 + _ * ·) (congrArg Prod.fst (hsum _ _ _)))
    (congrArg (acc.2 + _ * ·) (congrArg Prod.snd (hsum _ _ _)))

variable [Sub F]

/-- A pass over a byte in the tail loop of `rows_q4_k`. -/
def passQ4_K (blk : BlockQ4_K) (xb : Nat → F) (i : Nat) (acc : F) (l : Nat) : F :=
  let d1 := vgHalfToFloat fl blk.d * ofUnsigned (getScaleK4 (2 * i + 0) blk.scales)
  let m1 := vgHalfToFloat fl blk.dmin * ofUnsigned (getMinK4 (2 * i + 0) blk.scales)
  let d2 := vgHalfToFloat fl blk.d * ofUnsigned (getScaleK4 (2 * i + 1) blk.scales)
  let m2 := vgHalfToFloat fl blk.dmin * ofUnsigned (getMinK4 (2 * i + 1) blk.scales)
  let q := (blk.qs.plus (i * 32) l).toNat
  acc + (d1 * ofUnsigned (q &&& 0x0F) - m1) * xb (64 * i + l) +
    (d2 * ofUnsigned (q >>> 4) - m2) * xb (64 * i + 32 + l)

/-- A pass over a block. -/
def blockPassQ4_K (row : Ptr) (acc : F) (ib : Nat) : F :=
  (List.range 4).foldl (fun acc i => (List.range 32).foldl
    (passQ4_K fl (blockQ4_K (row.plus (ib * 144))) (fun j => x (ib * 256 + j)) i) acc) acc

/-- A row of the tail loop of `rows_q4_k`. -/
def rowQ4_K (r : Nat) : F :=
  accumulate (inDim / 256) (blockPassQ4_K fl x (W.plus (r * (inDim / 256) * 144)))

theorem rowsQ4_K_eq {r0 r1 fuel : Nat} (hr : r0 ≤ r1) (hr1 : r1 < 2 ^ 32)
    (hodd : r1 = 2 ^ 32 - 1 → (r1 - r0) % 2 = 1) (hfuel : r1 - r0 < fuel) :
    rowsQ4_K fl W x inDim fuel r0 r1 = some (forRows r0 r1 (rowQ4_K fl W x inDim)) := by
  refine forPairs_eq (fun r => ?_) hr hr1 hodd hfuel
  have hnext : (W.plus (r * (inDim / 256) * 144)).plus (inDim / 256 * 144) =
      W.plus ((r + 1) * (inDim / 256) * 144) := by
    rw [Ptr.plus_plus, ← Nat.add_mul, Nat.succ_mul]
  simp only [hnext]
  refine foldl_prod (f := blockPassQ4_K fl x (W.plus (r * (inDim / 256) * 144)))
    (g := blockPassQ4_K fl x (W.plus ((r + 1) * (inDim / 256) * 144))) (fun acc ib => ?_) _ _
  refine foldl_prod (fun acc i => ?_) _ _
  refine foldl_prod (fun acc l => ?_) _ _
  rfl

/-- The ranges on which the loop over pairs of rows comes to an end where `r + 1` is zero. -/
def Overruns (type : Nat) (range : Nat × Nat) : Prop :=
  (type = 2 ∨ type = 12) ∧ range.1 < range.2 ∧ range.2 = 2 ^ 32 - 1 ∧
    (range.2 - range.1) % 2 = 0

instance (type : Nat) (range : Nat × Nat) : Decidable (Overruns type range) := by
  unfold Overruns
  infer_instance

/-- The fused kernels store a value that depends on the row alone. -/
theorem pickRows_eq {type : Nat} {rows : RowFn F} (h : pickRows fl type = some rows) :
    ∃ row, ∀ fuel r0 r1, r0 < r1 → r1 < 2 ^ 32 → ¬Overruns type (r0, r1) → r1 - r0 < fuel →
      rows W x inDim fuel r0 r1 = some (forRows r0 r1 row) := by
  unfold pickRows at h
  split at h <;> cases h
  · exact ⟨_, fun _ _ _ _ _ _ _ => rfl⟩
  · exact ⟨_, fun _ _ _ _ _ _ _ => rfl⟩
  · exact ⟨_, fun _ _ _ _ _ _ _ => rfl⟩
  · refine ⟨_, fun _ _ _ hr hr1 hends hfuel => rowsQ4_0_eq fl W x inDim hr.le hr1 (fun hmax => ?_) hfuel⟩
    exact Nat.mod_two_ne_zero.mp fun heven => hends ⟨.inl rfl, hr, hmax, heven⟩
  · refine ⟨_, fun _ _ _ hr hr1 hends hfuel => rowsQ4_K_eq fl W x inDim hr.le hr1 (fun hmax => ?_) hfuel⟩
    exact Nat.mod_two_ne_zero.mp fun heven => hends ⟨.inr rfl, hr, hmax, heven⟩
  · exact ⟨_, fun _ _ _ _ _ _ _ => rfl⟩
  · exact ⟨_, fun _ _ _ _ _ _ _ => rfl⟩
  · exact ⟨_, fun _ _ _ _ _ _ _ => rfl⟩
  · exact ⟨_, fun _ _ _ _ _ _ _ => rfl⟩
  · exact ⟨_, fun _ _ _ _ _ _ _ => rfl⟩

theorem pickRows_overruns {type : Nat} {rows : RowFn F} (h : pickRows fl type = some rows)
    {r0 r1 : Nat} (hover : Overruns type (r0, r1)) (fuel : Nat) :
    rows W x inDim fuel r0 r1 = none := by
  obtain ⟨htype, hr, rfl, heven⟩ := hover
  have hodd : r0 % 2 = 1 := by dsimp only at hr heven; omega
  have hlt : r0 < 2 ^ 32 := by dsimp only at hr; omega
  rcases htype with rfl | rfl <;> cases h
  · exact forPairs_overruns hlt hodd fuel
  · exact forPairs_overruns hlt hodd fuel

variable [Neg F]

/-- The value of a row that is expanded first, when there is a scratch row to expand it to. -/
def genericRow (type rowBytes : Nat) (r : Nat) : F :=
  if rowStatus type rowBytes inDim = .ok then
    accumulate inDim fun acc j => acc + element fl type (W.plus (r * rowBytes)) j * x j
  else nan fl

/-- What the scratch row holds at first, and what earlier rows leave in it, does not matter: each
row overwrites all of it. -/
theorem foldl_generic (type rowBytes : Nat) (rs : List Nat) (out : List (Nat × F)) (row : Nat → F) :
    (rs.foldl (fun st r =>
      let deq := vgDequantizeRow fl type (W.plus (r * rowBytes)) rowBytes st.2 inDim
      if deq.1 ≠ .ok then (st.1 ++ [(r, nan fl)], deq.2)
      else (st.1 ++ [(r, accumulate inDim fun acc j => acc + deq.2 j * x j)], deq.2))
      (out, row)).1 = out ++ rs.map fun r => (r, genericRow fl W x inDim type rowBytes r) := by
  induction rs generalizing out row with
  | nil => simp
  | cons r rs ih =>
    simp only [List.foldl_cons, vgDequantizeRow_eq, List.map_cons] at ih ⊢
    by_cases hok : rowStatus type rowBytes inDim = .ok
    · rw [if_neg (not_not.mpr hok), ih]
      have hrow : genericRow fl W x inDim type rowBytes r =
          accumulate inDim fun acc j => acc + (if rowStatus type rowBytes inDim = .ok ∧ j < inDim then
            element fl type (W.plus (r * rowBytes)) j else row j) * x j := by
        rw [genericRow, if_pos hok]
        exact accumulate_congr fun acc j hj => by rw [if_pos ⟨hok, hj⟩]
      rw [hrow]
      simp
    · rw [if_pos hok, ih, genericRow, if_neg hok]
      simp

/-- Whether a job has the memory that it needs: only the types without a fused kernel take a scratch
row. -/
def granted (type : Nat) (scratch : Option (Nat → F)) : Bool :=
  (pickRows fl type).isSome || scratch.isSome

theorem rowsGenericDeq_eq (type : Nat) :
    ∃ row : Bool → Nat → F, ∀ scratch r0 r1,
      rowsGenericDeq fl type scratch W x inDim r0 r1 = forRows r0 r1 (row scratch.isSome) := by
  unfold rowsGenericDeq
  cases quantInfo type with
  | none => exact ⟨fun _ _ => nan fl, fun _ _ _ => rfl⟩
  | some qi =>
    by_cases hs : supportedScalar qi = false
    · exact ⟨fun _ _ => nan fl, fun _ _ _ => by simp [hs]⟩
    · refine ⟨fun b r => if b then
        genericRow fl W x inDim type (inDim / qi.blockSize * qi.bytesPerBlock) r else nan fl,
        fun scratch r0 r1 => ?_⟩
      cases scratch with
      | none => simp [hs]
      | some row =>
        simp only [hs, Option.isSome_some, if_true]
        rw [foldl_generic, List.nil_append]
        rfl

/-- Every job stores, in the rows of its range, values that depend on the row alone and on whether
it was granted its memory. -/
theorem matJob_eq (type : Nat) :
    ∃ row : Bool → Nat → F, ∀ fuel scratch range, range.2 < 2 ^ 32 → ¬Overruns type range →
      range.2 - range.1 < fuel → matJob fl type W x inDim fuel scratch range =
        some (forRows range.1 range.2 (row (granted fl type scratch))) := by
  unfold matJob granted
  cases hrows : pickRows fl type with
  | some rows =>
    obtain ⟨row, hrow⟩ := pickRows_eq fl W x inDim hrows
    refine ⟨fun _ => row, fun fuel scratch range hlt hends hfuel => ?_⟩
    split_ifs with hempty
    · rw [forRows_nil _ hempty]
    · exact hrow fuel _ _ (Nat.lt_of_not_le hempty) hlt hends hfuel
  | none =>
    obtain ⟨row, hrow⟩ := rowsGenericDeq_eq fl W x inDim type
    refine ⟨row, fun fuel scratch range _ _ _ => ?_⟩
    split_ifs with hempty
    · rw [forRows_nil _ hempty]
    · simpa using hrow scratch range.1 range.2

theorem matJob_overruns {type : Nat} {range : Nat × Nat} (h : Overruns type range) (fuel : Nat)
    (scratch : Option (Nat → F)) : matJob fl type W x inDim fuel scratch range = none := by
  obtain ⟨rows, hrows⟩ : ∃ rows, pickRows fl type = some rows := by
    rcases h.1 with rfl | rfl
    · exact ⟨_, rfl⟩
    · exact ⟨_, rfl⟩
  rw [matJob, if_neg (Nat.not_le.mpr h.2.1), hrows]
  exact pickRows_overruns fl W x inDim hrows h fuel

/-- A range from the first row on does not overrun: its length is odd when it ends at the last
`uint32_t`. -/
theorem not_overruns_whole (type outDim : Nat) : ¬Overruns type (0, outDim) := by
  rintro ⟨-, -, hmax, heven⟩
  dsimp only at hmax heven
  omega

/-- The stores of the jobs, one after the other, where all end. -/
def jobStores (type fuel : Nat) (jobs : List ((Nat × Nat) × Option (Nat → F))) :
    Option (List (Nat × F)) :=
  (jobs.mapM fun j => matJob fl type W x inDim fuel j.2 j.1).map List.flatten

end Rows

section Split

variable {F : Type*}

theorem storeAll_forRows {y row : Nat → F} {r0 r1 r : Nat} :
    storeAll y (forRows r0 r1 row) r = if r0 ≤ r ∧ r < r1 then row r else y r := by
  split_ifs with hr
  · exact storeAll_of_stored (fun s hs hsr => hsr ▸ (mem_forRows.mp hs).2.2)
      ⟨(r, row r), mem_forRows.mpr ⟨hr.1, hr.2, rfl⟩, rfl⟩
  · refine storeAll_of_unstored fun s hs hsr => hr ?_
    rw [← hsr]
    exact ⟨(mem_forRows.mp hs).1, (mem_forRows.mp hs).2.1⟩

/-- The stores of ranges that partition the rows, in any order, leave in each row what one range
leaves. -/
theorem storeAll_split {outDim : Nat} {jobs : List ((Nat × Nat) × Option (Nat → F))}
    (hsplit : Partitions outDim (jobs.map Prod.fst)) {y : Nat → F} {row : Bool → Nat → F}
    {stores : List (Nat × F)} {g : Option (Nat → F) → Bool}
    (horder : stores.Perm (jobs.flatMap fun j => forRows j.1.1 j.1.2 (row (g j.2)))) {b : Bool} {r : Nat}
    (hsame : ∀ j ∈ jobs, j.1.1 ≤ r → r < j.1.2 → g j.2 = b) :
    storeAll y stores r = storeAll y (forRows 0 outDim (row b)) r := by
  rw [storeAll_forRows]
  split_ifs with hr
  · obtain ⟨range, hrange, hlo, hhi⟩ := hsplit.covered hr.2
    obtain ⟨j, hj, rfl⟩ := List.mem_map.mp hrange
    refine storeAll_of_stored (fun s hs hsr => ?_) ⟨(r, row (g j.2) r),
      horder.mem_iff.mpr (List.mem_flatMap.mpr ⟨j, hj, mem_forRows.mpr ⟨hlo, hhi, rfl⟩⟩), rfl⟩
    obtain ⟨j', hj', hs⟩ := List.mem_flatMap.mp (horder.mem_iff.mp hs)
    rw [mem_forRows, hsr] at hs
    rw [hs.2.2, hsame j' hj' hs.1 hs.2.1]
  · refine storeAll_of_unstored fun s hs hsr => hr ⟨Nat.zero_le r, ?_⟩
    obtain ⟨j, hj, hs⟩ := List.mem_flatMap.mp (horder.mem_iff.mp hs)
    rw [mem_forRows, hsr] at hs
    exact hs.2.1.trans_le (hsplit.within j.1 (List.mem_map_of_mem hj)).2

/-- `matmul_impl` either refuses, whatever the jobs would store, or hands back their stores. -/
theorem matmulImpl_cases (type : Nat) (y : Nat → F) (outDim inDim : Nat) :
    (∃ status, ∀ stores, matmulImpl type y outDim inDim stores = some (status, y)) ∨
      ∃ qi, quantInfo type = some qi ∧ inDim % qi.blockSize = 0 ∧ ∀ stores,
        matmulImpl type y outDim inDim stores = stores.map fun stores => (.ok, storeAll y stores) := by
  unfold matmulImpl
  by_cases hzero : outDim = 0 ∨ inDim = 0
  · exact .inl ⟨.invalid, fun _ => if_pos hzero⟩
  · cases hqi : quantInfo type with
    | none => exact .inl ⟨.unsupported, fun _ => if_neg hzero⟩
    | some qi =>
      simp only [if_neg hzero]
      by_cases hdim : inDim % qi.blockSize = 0
      · simp only [hdim, ne_eq, not_true_eq_false, if_false]
        by_cases hs : supportedScalar qi = false
        · exact .inl ⟨.unsupported, fun _ => if_pos hs⟩
        · exact .inr ⟨qi, rfl, hdim, fun _ => if_neg hs⟩
      · exact .inl ⟨.format, fun _ => if_pos hdim⟩

variable [Zero F] [Add F] [Sub F] [Neg F] [Mul F] [IntCast F] (fl : Floats F)

/-- The product over the ranges of the jobs returns what `vg_cpu_matmul_ref` returns, in whatever order
the stores of the jobs happen: the same status and, in each row, the same expression, unless one of the
two was refused the scratch row that its type needs. -/
def AgreesWithRef (type : Nat) (W : Ptr) (x y : Nat → F) (outDim inDim : Nat) (pool : Bool)
    (threads : Nat) (scratch direct : Option (Nat → F))
    (jobs : List ((Nat × Nat) × Option (Nat → F))) : Prop :=
  ∃ fuel, ∀ order : List (Nat × F) → List (Nat × F), (∀ stores, (order stores).Perm stores) →
    ∃ res ref,
      vgCpuMatmul fl type W x y outDim inDim fuel pool threads
          ((jobStores fl W x inDim type fuel jobs).map order) direct = some res ∧
        vgCpuMatmulRef fl type W x y outDim inDim fuel scratch = some ref ∧
        res.1 = ref.1 ∧
        ∀ r, (∀ j ∈ jobs, j.1.1 ≤ r → r < j.1.2 → granted fl type j.2 = granted fl type scratch) →
          granted fl type direct = granted fl type scratch → res.2 r = ref.2 r

section Agrees

variable {fl} {type : Nat} {W : Ptr} {x y : Nat → F} {outDim inDim : Nat} {pool : Bool} {threads : Nat}
variable {scratch direct : Option (Nat → F)} {jobs : List ((Nat × Nat) × Option (Nat → F))}

theorem not_agreesWithRef {qi : QuantInfo} (hqi : quantInfo type = some qi)
    (hdim : inDim % qi.blockSize = 0) (hpool : usesPool pool threads outDim inDim)
    {j : (Nat × Nat) × Option (Nat → F)} (hj : j ∈ jobs) (hover : Overruns type j.1) :
    ¬AgreesWithRef fl type W x y outDim inDim pool threads scratch direct jobs := by
  rintro ⟨fuel, h⟩
  have hnone : jobStores fl W x inDim type fuel jobs = none := by
    rw [jobStores, mapM_eq_none hj (matJob_overruns fl W x inDim hover fuel j.2)]
    rfl
  obtain ⟨res, -, hres, -⟩ := h id fun stores => List.Perm.refl stores
  rw [vgCpuMatmul, if_pos hpool, hnone] at hres
  have hdims : ¬(outDim = 0 ∨ inDim = 0) := by
    have hmany := hpool.2.2
    omega
  have hs : supportedScalar qi ≠ false := by
    rcases hover.1 with rfl | rfl <;> cases hqi <;> decide
  simp [matmulImpl, hdims, hqi, hdim, hs] at hres

theorem agreesWithRef_of_ends (hout : outDim < 2 ^ 32)
    (hsplit : Partitions outDim (jobs.map Prod.fst))
    (hends : ∀ qi, quantInfo type = some qi → inDim % qi.blockSize = 0 →
      usesPool pool threads outDim inDim → ∀ j ∈ jobs, ¬Overruns type j.1) :
    AgreesWithRef fl type W x y outDim inDim pool threads scratch direct jobs := by
  refine ⟨outDim + 1, fun order horder => ?_⟩
  obtain ⟨status, hrefused⟩ | ⟨qi, hqi, hdim, hdone⟩ := matmulImpl_cases type y outDim inDim
  · exact ⟨_, _, hrefused _, hrefused _, rfl, fun _ _ _ => rfl⟩
  obtain ⟨row, hrow⟩ := matJob_eq fl W x inDim type
  have hwhole : ∀ memory, matJob fl type W x inDim (outDim + 1) memory (0, outDim) = _ :=
    fun memory => hrow _ memory (0, outDim) hout (not_overruns_whole type outDim) (by simp)
  unfold vgCpuMatmul vgCpuMatmulRef
  simp only [hdone, hwhole]
  split_ifs with hpool
  · have hjobs : jobStores fl W x inDim type (outDim + 1) jobs =
        some (jobs.flatMap fun j => forRows j.1.1 j.1.2 (row (granted fl type j.2))) := by
      rw [jobStores, mapM_of_forall fun j hj => ?_]
      · rfl
      · have hin := (hsplit.within j.1 (List.mem_map_of_mem hj)).2
        exact hrow _ j.2 j.1 (by omega) (hends qi hqi hdim hpool j hj) (by omega)
    rw [hjobs]
    refine ⟨_, _, rfl, rfl, rfl, fun r hsame _ => ?_⟩
    exact storeAll_split hsplit (horder _) hsame
  · refine ⟨_, _, rfl, rfl, rfl, fun r _ hdirect => ?_⟩
    rw [hdirect]

end Agrees

theorem agreesWithRef_iff (type : Nat) (W : Ptr) (x y : Nat → F) (outDim inDim : Nat)
    (hout : outDim < 2 ^ 32) (pool : Bool) (threads : Nat) (scratch direct : Option (Nat → F))
    (jobs : List ((Nat × Nat) × Option (Nat → F)))
    (hsplit : Partitions outDim (jobs.map Prod.fst)) :
    AgreesWithRef fl type W x y outDim inDim pool threads scratch direct jobs ↔
      ∀ qi, quantInfo type = some qi → inDim % qi.blockSize = 0 →
        usesPool pool threads outDim inDim → ∀ j ∈ jobs, ¬Overruns type j.1 :=
  ⟨fun h _ hqi hdim hpool _ hj hover => not_agreesWithRef hqi hdim hpool hj hover h,
    agreesWithRef_of_ends hout hsplit⟩

theorem agreesWithRef_threeRows :
    AgreesWithRef exactFloats 2 0 0 0 3 64 true 2 none none [((0, 1), none), ((1, 3), none)] :=
  (agreesWithRef_iff exactFloats 2 0 0 0 3 64 (by decide) true 2 none none
    [((0, 1), none), ((1, 3), none)]
    (Tiles.partitions ⟨rfl, by decide, rfl, by decide, rfl⟩)).mpr
    fun _ _ _ _ => by decide

/-- The second range starts at an odd row and ends at the last `uint32_t`. -/
theorem oddStart_not_agreesWithRef : Partitions (2 ^ 32 - 1) [(0, 1), (1, 2 ^ 32 - 1)] ∧
    ¬AgreesWithRef exactFloats 2 0 0 0 (2 ^ 32 - 1) 64 true 2 none none
      [((0, 1), none), ((1, 2 ^ 32 - 1), none)] := by
  refine ⟨Tiles.partitions ⟨rfl, by decide, rfl, by decide, rfl⟩, ?_⟩
  exact not_agreesWithRef (j := ((1, 2 ^ 32 - 1), none)) rfl (by decide) (by decide) (by simp)
    (by decide)

end Split

end VgEngine.Quant
