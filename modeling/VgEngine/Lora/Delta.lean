import VgEngine.Lora.Order
import VgEngine.Gguf.Geometry

/-! The two ways to apply an adapter: to a matvec result, and to the weight. A read beyond the
elements of a factor is `none`. -/
namespace VgEngine.Lora
open VgEngine.Lib VgEngine.Gguf VgEngine.Model VgEngine.Quant Finset

section Model

variable {F : Type*} [CommRing F]

/-- `resolve` -/
def resolve (ad : VgLoraAdapter F) (weightName : List UInt8) : Option (VgLoraPair F) :=
  let n := weightName.length
  let without :=
    if endsIn weightName (txt ".weight") = true ∧ n - 7 + 1 ≤ 192 then
      findPair ad.pairs (weightName.take (n - 7))
    else none
  let added := if n + 8 ≤ 192 then findPair ad.pairs (weightName ++ txt ".weight") else none
  (findPair ad.pairs weightName).or (without.or added)

/-- `acc += term(k)` for each `k` below `n`. -/
def accumulate (n : Nat) (term : Nat → Option F) : Option F :=
  (List.range n).foldlM (fun acc k => (term k).map fun v => acc + v) 0

/-- `y[at(k)] += value(k)` for each `k` below `n`. -/
def addEach (n : Nat) (pos : Nat → Nat) (value : Nat → Option F) (y : Nat → F) :
    Option (Nat → F) :=
  (List.range n).foldlM
    (fun y k => (value k).map fun v => Function.update y (pos k) (y (pos k) + v)) y

/-- `heap` is whether a projection that does not fit on the stack could be allocated. -/
def vgLoraApplyDelta (heap : Bool) (ad : VgLoraAdapter F) (weightName : List UInt8) (x y : Nat → F)
    (outDim inDim : Nat) (scale : F) : Option (Int × (Nat → F)) :=
  match resolve ad weightName with
  | none => some (0, y)
  | some p =>
    match p.b with
    | none => some (0, y)
    | some b =>
      if p.inDim ≠ inDim ∨ p.outDim ≠ outDim then some (0, y)
      else if 256 < p.rank ∧ heap = false then some (-1, y)
      else do
        let tmp ← (List.range p.rank).mapM fun r =>
          accumulate p.inDim fun j => p.a[r * p.inDim + j]?.map fun v => v * x j
        let s := scale * p.scaling
        let y ← addEach p.outDim id (fun i =>
          (accumulate p.rank fun r => b[i * p.rank + r]?.map fun v => v * tmp.getD r 0).map
            fun acc => s * acc) y
        pure (1, y)

def vgLoraApply (ad : VgLoraAdapter F) (tensorName : List UInt8) (weight : Nat → F)
    (outDim inDim : Nat) (scale : F) : Option (Status × (Nat → F)) :=
  match resolve ad tensorName with
  | none => some (.unsupported, weight)
  | some p =>
    if p.inDim ≠ inDim ∨ p.outDim ≠ outDim then some (.format, weight)
    else do
      let s := scale * p.scaling
      let weight ← (List.range outDim).foldlM (fun weight i =>
        addEach inDim (fun j => i * inDim + j) (fun j =>
          (accumulate p.rank fun r => do
            let b ← p.b
            let bv ← b[i * p.rank + r]?
            let av ← p.a[r * inDim + j]?
            pure (bv * av)).map fun acc => s * acc) weight) weight
      pure (.ok, weight)

end Model

section Loops

variable {F : Type*} [CommRing F]

theorem accumulate_eq {n : Nat} {term : Nat → Option F} {f : Nat → F}
    (h : ∀ k < n, term k = some (f k)) : accumulate n term = some (∑ k ∈ range n, f k) := by
  unfold accumulate
  induction n with
  | zero => rfl
  | succ n ih =>
    rw [List.range_succ, List.foldlM_append, ih fun k hk => h k (by omega), sum_range_succ]
    simp [h n (by omega)]

theorem addEach_eq {n : Nat} {pos : Nat → Nat} {value : Nat → Option F} {f : Nat → F}
    (hpos : Function.Injective pos) (h : ∀ k < n, value k = some (f k)) (y : Nat → F) :
    ∃ y', addEach n pos value y = some y' ∧ (∀ k < n, y' (pos k) = y (pos k) + f k) ∧
      ∀ i, (∀ k < n, pos k ≠ i) → y' i = y i := by
  unfold addEach
  induction n with
  | zero => exact ⟨y, rfl, fun k hk => absurd hk (Nat.not_lt_zero k), fun i _ => rfl⟩
  | succ n ih =>
    obtain ⟨y', hrun, hadded, hkept⟩ := ih fun k hk => h k (by omega)
    refine ⟨Function.update y' (pos n) (y' (pos n) + f n), ?_, fun k hk => ?_, fun i hi => ?_⟩
    · rw [List.range_succ, List.foldlM_append, hrun]
      simp [h n (by omega)]
    · rcases Nat.lt_succ_iff_lt_or_eq.1 hk with hk | rfl
      · rw [Function.update_of_ne (hpos.ne (by omega)), hadded k hk]
      · rw [Function.update_self, hkept _ fun j hj => hpos.ne (by omega)]
    · rw [Function.update_of_ne (hi n (by omega)).symm, hkept i fun k hk => hi k (by omega)]

end Loops

section Read

variable {F : Type*} [CommRing F] {env : LoadEnv F}

/-- What the reader of an index has checked of a record. -/
structure Accepted (t : GgufTensor) : Prop where
  dims : ∀ d ∈ t.dims, 0 < d
  bytes : tensorBytes t.ggmlType t.dims = .ok t.nbytes

/-- A tensor is read whole or not at all, even where the 64 bits of the element count wrap. -/
theorem length_readFloatTensor {t : GgufTensor} {xs : List F} (ht : Accepted t)
    (h : readFloatTensor env t = some xs) : xs.length = t.dims.prod := by
  obtain ⟨q, hq, hmod, hbytes, -⟩ := tensorBytes_ok ht.bytes
  obtain ⟨hblock, hts⟩ := quantInfo_positive hq
  unfold readFloatTensor at h
  rw [hq] at h
  dsimp only at h
  split_ifs at h
  obtain ⟨raw, -, hrow⟩ := Option.bind_eq_some_iff.1 h
  rw [vgDequantizeRow_eq] at hrow
  split_ifs at hrow with hstatus
  cases hrow
  have hvalid : vgQuantValidate t.ggmlType (t.dims.prod % 2 ^ 64) t.nbytes = .ok := by
    unfold rowStatus at hstatus
    split_ifs at hstatus with _ hvalid
    exact not_not.1 hvalid
  unfold vgQuantValidate at hvalid
  rw [hq] at hvalid
  dsimp only at hvalid
  split_ifs at hvalid with hbad hlarge hsize
  have hwhole : t.dims.prod % 2 ^ 64 / q.blockSize =
      t.dims.tail.prod * (t.dims.headD 1 / q.blockSize) :=
    Nat.eq_of_mul_eq_mul_right hts (hsize.trans hbytes)
  have hprod : t.dims.prod = t.dims.headD 1 * t.dims.tail.prod := by
    cases t.dims <;> simp
  have helements : t.dims.prod % 2 ^ 64 % q.blockSize = 0 := by tauto
  rw [List.length_map, List.length_range]
  calc t.dims.prod % 2 ^ 64
      = t.dims.prod % 2 ^ 64 / q.blockSize * q.blockSize :=
        (Nat.div_mul_cancel (Nat.dvd_of_mod_eq_zero helements)).symm
    _ = t.dims.tail.prod * (t.dims.headD 1 / q.blockSize * q.blockSize) := by
        rw [hwhole, Nat.mul_assoc]
    _ = t.dims.prod := by
        rw [Nat.div_mul_cancel (Nat.dvd_of_mod_eq_zero hmod), hprod, Nat.mul_comm]

theorem dims_le_prod {t : GgufTensor} (ht : Accepted t) : dim t 0 * dim t 1 ≤ t.dims.prod := by
  have hdims := ht.dims
  unfold dim
  revert hdims
  generalize t.dims = dims
  intro hdims
  match dims with
  | [] => exact Nat.zero_le _
  | [d] => exact Nat.zero_le _
  | d :: e :: ds =>
    have hrest : 0 < ds.prod := List.prod_pos fun n hn => hdims n (by simp [hn])
    rw [List.prod_cons, List.prod_cons, ← Nat.mul_assoc]
    exact Nat.le_mul_of_pos_right _ hrest

/-- The factors of a pair have the elements that its dimensions say. -/
structure Inside (p : VgLoraPair F) : Prop where
  a : p.rank * p.inDim ≤ p.a.length
  b : ∀ b, p.b = some b → p.outDim * p.rank ≤ b.length

omit [CommRing F] in
theorem forall_updatePair {pairs : List (VgLoraPair F)} {f : VgLoraPair F → VgLoraPair F}
    {P : VgLoraPair F → Prop} (hf : ∀ p, P p → P (f p)) (h : ∀ p ∈ pairs, P p) (base : List UInt8) :
    ∀ p ∈ updatePair base f pairs, P p := by
  induction pairs with
  | nil => exact h
  | cons q pairs ih =>
    obtain ⟨hq, hrest⟩ := List.forall_mem_cons.1 h
    unfold updatePair
    split
    · exact List.forall_mem_cons.2 ⟨hf q hq, hrest⟩
    · exact List.forall_mem_cons.2 ⟨hq, ih hrest⟩

theorem inside_newPair {base : List UInt8} {t : GgufTensor} {p : VgLoraPair F} (ht : Accepted t)
    (h : newPair env base t = some p) : Inside p := by
  unfold newPair at h
  split at h
  · obtain ⟨a, ha, rfl⟩ := Option.map_eq_some_iff.1 h
    refine ⟨?_, fun b hb => by cases hb⟩
    rw [length_readFloatTensor ht ha, Nat.mul_comm]
    exact (Nat.mul_le_mul (Nat.mod_le _ _) (Nat.mod_le _ _)).trans (dims_le_prod ht)
  · cases h

theorem inside_withB {t : GgufTensor} {p : VgLoraPair F} (ht : Accepted t) (hp : Inside p) :
    Inside (withB env t p) := by
  unfold withB
  split
  · rename_i hrank
    refine ⟨hp.a, fun b hb => ?_⟩
    have hread : readFloatTensor env t = some b := hb
    dsimp only
    rw [hread, length_readFloatTensor ht hread, ← hrank, Nat.mul_comm]
    exact (Nat.mul_le_mul (Nat.mod_le _ _) (Nat.mod_le _ _)).trans (dims_le_prod ht)
  · exact hp

theorem inside_foldl {ts : List GgufTensor} {pairs : List (VgLoraPair F)}
    (hts : ∀ t ∈ ts, Accepted t) (h : ∀ p ∈ pairs, Inside p) :
    ∀ p ∈ ts.foldl (stepPairs env) pairs, Inside p := by
  induction ts generalizing pairs with
  | nil => exact h
  | cons t ts ih =>
    obtain ⟨ht, hrest⟩ := List.forall_mem_cons.1 hts
    refine ih hrest ?_
    unfold stepPairs
    match half t with
    | none => exact h
    | some (base, false) => exact forall_updatePair (fun p => inside_withB ht) h base
    | some (base, true) =>
      intro p hp
      rcases List.mem_append.1 hp with hp | hp
      · exact h p hp
      · exact inside_newPair ht (Option.mem_toList.1 hp)

/-- Every pair of a loaded adapter has both factors, as large as its dimensions say. -/
theorem inside_vgLoraLoad [DecidableEq F] {ts : List GgufTensor} {ad : VgLoraAdapter F}
    (hts : ∀ t ∈ ts, Accepted t) (hload : vgLoraLoad env ts = .ok ad) {p : VgLoraPair F}
    (hp : p ∈ ad.pairs) : p.b.isSome ∧ Inside p := by
  have hhalves : ∀ p ∈ (loadHalves env ⟨[], 0, 0⟩ ts).pairs, Inside p := by
    rw [pairs_loadHalves]
    exact inside_foldl (fun t ht => hts t ((reached_sublist ts 0 0).subset ht)) (by simp)
  have hscaled : ∀ (ts : List GgufTensor) (pairs : List (VgLoraPair F)), (∀ p ∈ pairs, Inside p) →
      ∀ p ∈ ts.foldl (loadScaling env) pairs, Inside p := by
    intro ts
    induction ts with
    | nil => exact fun _ h => h
    | cons t ts ih =>
      intro pairs h
      refine ih _ ?_
      rw [loadScaling_eq]
      split
      · exact h
      · refine forall_updatePair (fun q hq => ?_) h _
        obtain ⟨s, hs⟩ := withScaling_eq env t q
        rw [hs]
        exact ⟨hq.a, hq.b⟩
  unfold vgLoraLoad at hload
  split at hload
  · cases hload
  · cases hload
    obtain ⟨hmem, hcomplete⟩ := List.mem_filter.1 hp
    exact ⟨(Bool.and_eq_true_iff.1 hcomplete).1, hscaled ts _ hhalves p hmem⟩

end Read

section Property

variable {F : Type*} [CommRing F]

/-- An entry of a row-major table of whole rows. -/
theorem entry_lt {i j rows width n : Nat} (hi : i < rows) (hj : j < width)
    (hn : rows * width ≤ n) : i * width + j < n := by
  have hrow : (i + 1) * width ≤ rows * width := Nat.mul_le_mul_right width hi
  rw [Nat.succ_mul] at hrow
  omega

omit [CommRing F] in
theorem resolve_mem {ad : VgLoraAdapter F} {name : List UInt8}
    {p : VgLoraPair F} (h : resolve ad name = some p) : p ∈ ad.pairs := by
  have hfound {base : List UInt8} (h : findPair ad.pairs base = some p) : p ∈ ad.pairs :=
    List.mem_of_find?_eq_some h
  unfold resolve at h
  dsimp only at h
  rcases Option.or_eq_some_iff.1 h with h | ⟨-, h⟩
  · exact hfound h
  · rcases Option.or_eq_some_iff.1 h with h | ⟨-, h⟩
    · split at h
      · exact hfound h
      · cases h
    · split at h
      · exact hfound h
      · cases h

/-- The matvec of a row-major weight. -/
def product (weight x : Nat → F) (inDim i : Nat) : F :=
  ∑ j ∈ range inDim, weight (i * inDim + j) * x j

theorem getElem?_map_inside {F G : Type*} [Zero F] {xs : List F} {k : Nat} (h : k < xs.length)
    (f : F → G) : xs[k]?.map f = some (f (xs.getD k 0)) := by
  rw [List.getD_eq_getElem?_getD, List.getElem?_eq_getElem h, Option.map_some, Option.getD_some]

/-- Row after row of a weight is added to. -/
theorem addRows_eq {n m : Nat} {value : Nat → Nat → Option F} {f : Nat → Nat → F}
    (h : ∀ i < n, ∀ j < m, value i j = some (f i j)) (w : Nat → F) :
    ∃ w', (List.range n).foldlM (fun w i => addEach m (fun j => i * m + j) (value i) w) w = some w' ∧
      (∀ i < n, ∀ j < m, w' (i * m + j) = w (i * m + j) + f i j) ∧ ∀ k, n * m ≤ k → w' k = w k := by
  induction n with
  | zero => exact ⟨w, rfl, fun i hi => absurd hi (Nat.not_lt_zero i), fun k _ => rfl⟩
  | succ n ih =>
    obtain ⟨w', hrun, hadded, hkept⟩ := ih fun i hi => h i (by omega)
    have hpos : Function.Injective fun j => n * m + j := fun a b hab => Nat.add_left_cancel hab
    obtain ⟨w'', hrow, hrowAdded, hrowKept⟩ :=
      addEach_eq hpos (fun j hj => h n (Nat.lt_succ_self n) j hj) w'
    refine ⟨w'', ?_, fun i hi j hj => ?_, fun k hk => ?_⟩
    · rw [List.range_succ, List.foldlM_append, hrun]
      simp [hrow]
    · rcases Nat.lt_succ_iff_lt_or_eq.1 hi with hi | rfl
      · have hbelow := entry_lt hi hj (le_refl (n * m))
        rw [hrowKept _ fun k _ => by omega, hadded i hi j hj]
      · rw [hrowAdded j hj, hkept _ (by omega)]
    · rw [Nat.succ_mul] at hk
      rw [hrowKept k fun j hj => by omega, hkept k (by omega)]

/-- What a pair adds to an entry of the weight. -/
def delta (p : VgLoraPair F) (b : List F) (scale : F) (i j : Nat) : F :=
  scale * p.scaling *
    ∑ r ∈ range p.rank, b.getD (i * p.rank + r) 0 * p.a.getD (r * p.inDim + j) 0

theorem vgLoraApply_eq {ad : VgLoraAdapter F} {name : List UInt8} {p : VgLoraPair F} {b : List F}
    (hresolve : resolve ad name = some p) (hp : Inside p) (hb : p.b = some b) (w : Nat → F)
    (scale : F) : ∃ w', vgLoraApply ad name w p.outDim p.inDim scale = some (.ok, w') ∧
      ∀ i < p.outDim, ∀ j < p.inDim,
        w' (i * p.inDim + j) = w (i * p.inDim + j) + delta p b scale i j := by
  have hvalue : ∀ i < p.outDim, ∀ j < p.inDim,
      ((accumulate p.rank fun r => do
        let b ← p.b
        let bv ← b[i * p.rank + r]?
        let av ← p.a[r * p.inDim + j]?
        pure (bv * av)).map fun acc => scale * p.scaling * acc) = some (delta p b scale i j) := by
    intro i hi j hj
    rw [accumulate_eq (f := fun r => b.getD (i * p.rank + r) 0 * p.a.getD (r * p.inDim + j) 0)]
    · rfl
    · intro r hr
      have hin := entry_lt hi hr (hp.b b hb)
      have hin' := entry_lt hr hj hp.a
      simp [hb, hin, hin']
  obtain ⟨w', hrun, hadded, -⟩ := addRows_eq hvalue w
  refine ⟨w', ?_, hadded⟩
  unfold vgLoraApply
  rw [hresolve]
  dsimp only
  rw [if_neg (by simp), hrun]
  rfl

theorem vgLoraApplyDelta_eq {heap : Bool} {ad : VgLoraAdapter F} {name : List UInt8}
    {p : VgLoraPair F} {b : List F} (hresolve : resolve ad name = some p) (hp : Inside p)
    (hb : p.b = some b) (hheap : ¬ (256 < p.rank ∧ heap = false)) (x y : Nat → F) (scale : F) :
    ∃ y', vgLoraApplyDelta heap ad name x y p.outDim p.inDim scale = some (1, y') ∧
      ∀ i < p.outDim, y' i = y i + ∑ j ∈ range p.inDim, delta p b scale i j * x j := by
  have htmp : (List.range p.rank).mapM (fun r =>
      accumulate p.inDim fun j => p.a[r * p.inDim + j]?.map fun v => v * x j) =
        some ((List.range p.rank).map fun r =>
          ∑ j ∈ range p.inDim, p.a.getD (r * p.inDim + j) 0 * x j) := by
    refine mapM_of_forall fun r hr => accumulate_eq fun j hj => ?_
    exact getElem?_map_inside (entry_lt (List.mem_range.1 hr) hj hp.a) _
  have hrow : ∀ i < p.outDim, ((accumulate p.rank fun r => b[i * p.rank + r]?.map fun v =>
      v * ((List.range p.rank).map fun r =>
        ∑ j ∈ range p.inDim, p.a.getD (r * p.inDim + j) 0 * x j).getD r 0).map
          fun acc => scale * p.scaling * acc) =
        some (∑ j ∈ range p.inDim, delta p b scale i j * x j) := by
    intro i hi
    rw [accumulate_eq (f := fun r => b.getD (i * p.rank + r) 0 *
      ∑ j ∈ range p.inDim, p.a.getD (r * p.inDim + j) 0 * x j)]
    · unfold delta
      simp only [Option.map_some, mul_sum, sum_mul]
      rw [sum_comm]
      simp only [mul_assoc]
    · intro r hr
      rw [getElem?_map_inside (entry_lt hi hr (hp.b b hb))]
      simp [hr]
  obtain ⟨y', hrun, hadded, -⟩ := addEach_eq Function.injective_id hrow y
  refine ⟨y', ?_, hadded⟩
  unfold vgLoraApplyDelta
  rw [hresolve]
  dsimp only
  rw [hb]
  dsimp only
  rw [if_neg (by simp), if_neg hheap, htmp]
  simp only [Option.bind_eq_bind, Option.bind_some]
  rw [hrun]
  rfl

/-- A delta added to a matvec result is the matvec of the weight with the delta, unless there is no
memory for its projection, and no factor is read beyond what the loader has read of it. -/
theorem vgLoraApplyDelta_product [DecidableEq F] {libc : Libc} {file : GgufFile} {g : VgGguf}
    (hparse : parseIndex libc file = .ok g) {env : LoadEnv F} {ad : VgLoraAdapter F}
    (hload : vgLoraLoad env g.tensorList = .ok ad) (heap : Bool) (name : List UInt8)
    (w x : Nat → F) (outDim inDim : Nat) (scale : F) : ∃ status w' applied y',
      vgLoraApply ad name w outDim inDim scale = some (status, w') ∧
      vgLoraApplyDelta heap ad name x (product w x inDim) outDim inDim scale = some (applied, y') ∧
      ((∀ i < outDim, y' i = product w' x inDim i) ∨ applied = -1 ∧ heap = false ∧
        y' = product w x inDim ∧ ∃ p, resolve ad name = some p ∧ 256 < p.rank) := by
  cases hresolve : resolve ad name with
  | none =>
    refine ⟨.unsupported, w, 0, product w x inDim, ?_, ?_, .inl fun i _ => rfl⟩
    · unfold vgLoraApply
      rw [hresolve]
    · unfold vgLoraApplyDelta
      rw [hresolve]
  | some p =>
    have haccepted : ∀ t ∈ g.tensorList, Accepted t := fun t ht =>
      ⟨(parseIndex_record hparse ht).1, (parseIndex_record hparse ht).2⟩
    obtain ⟨hread, hp⟩ := inside_vgLoraLoad haccepted hload (resolve_mem hresolve)
    obtain ⟨b, hb⟩ := Option.isSome_iff_exists.1 hread
    by_cases hdims : p.inDim ≠ inDim ∨ p.outDim ≠ outDim
    · refine ⟨.format, w, 0, product w x inDim, ?_, ?_, .inl fun i _ => rfl⟩
      · unfold vgLoraApply
        rw [hresolve]
        exact if_pos hdims
      · unfold vgLoraApplyDelta
        rw [hresolve]
        dsimp only
        rw [hb]
        exact if_pos hdims
    · rw [not_or, not_not, not_not] at hdims
      obtain ⟨rfl, rfl⟩ := hdims
      obtain ⟨w', happly, hw'⟩ := vgLoraApply_eq hresolve hp hb w scale
      by_cases hheap : 256 < p.rank ∧ heap = false
      · refine ⟨.ok, w', -1, product w x p.inDim, happly, ?_,
          .inr ⟨rfl, hheap.2, rfl, p, rfl, hheap.1⟩⟩
        unfold vgLoraApplyDelta
        rw [hresolve]
        dsimp only
        rw [hb]
        dsimp only
        rw [if_neg (by simp), if_pos hheap]
      · obtain ⟨y', hdelta, hy'⟩ :=
          vgLoraApplyDelta_eq hresolve hp hb hheap x (product w x p.inDim) scale
        refine ⟨.ok, w', 1, y', happly, hdelta, .inl fun i hi => ?_⟩
        calc y' i = product w x p.inDim i + ∑ j ∈ range p.inDim, delta p b scale i j * x j :=
              hy' i hi
          _ = ∑ j ∈ range p.inDim, (w (i * p.inDim + j) + delta p b scale i j) * x j := by
              simp only [product, add_mul, sum_add_distrib]
          _ = product w' x p.inDim i :=
              sum_congr rfl fun j hj => by rw [hw' i hi j (mem_range.1 hj)]

/-- `w.lora_a` and `w.lora_b`, all zeros. -/
def adapterFile : FixFile where
  metas := []
  tensors := [⟨txt "w.lora_a", [2, 1], 0, List.replicate 8 0⟩,
    ⟨txt "w.lora_b", [1, 3], 0, List.replicate 12 0⟩]

def adapterGguf : GgufFile := ⟨writeFile adapterFile, by decide +kernel, by decide +kernel⟩

theorem vgLoraApplyDelta_adapterFile : ∃ (ad : VgLoraAdapter ℚ) (status : Status) (w' : Nat → ℚ)
    (applied : Int) (y' : Nat → ℚ), vgLoraApply ad (txt "w.weight") (fun i => i) 3 2 1 =
        some (status, w') ∧
      vgLoraApplyDelta true ad (txt "w.weight") (fun _ => 1) (product (fun i => i) (fun _ => 1) 2)
        3 2 1 = some (applied, y') ∧ ∀ i < 3, y' i = product w' (fun _ => 1) 2 i := by
  have hparse : (parseIndex plainLibc adapterGguf).toBool = true := by decide +kernel
  cases h : parseIndex plainLibc adapterGguf with
  | error e =>
    rw [h] at hparse
    cases hparse
  | ok g =>
    obtain ⟨ad, hload⟩ := vgLoraLoad_plain g.tensorList
    obtain ⟨status, w', applied, y', happly, hdelta, hsame | ⟨-, hheap, -⟩⟩ :=
      vgLoraApplyDelta_product h hload true (txt "w.weight") (fun i => (i : ℚ)) (fun _ => 1) 3 2 1
    · exact ⟨ad, status, w', applied, y', happly, hdelta, hsame⟩
    · cases hheap

end Property

end VgEngine.Lora
