import VgEngine.Vulkan.AttnScores
import VgEngine.Vulkan.MatvecExact
import VgEngine.Vulkan.Orders
import VgEngine.Decode.RopeFrame

/-! The shaders of the dense path that go over rows: `rmsnorm`, `activation_quant_q8`, `swiglu`,
`resid_add` and, in place, `rope_adj`. Then all shaders of the path as the kernels of its dispatches,
and what each dispatch leaves behind in exact arithmetic. -/
namespace VgEngine.Vulkan
open VgEngine.Lib

section Norm

variable {F : Type} [Field F] (gl : Glsl F) (dim : Nat) (eps : F) (x w : Nat → F)

/-- The orders of the 256 lanes of `rmsnorm` between the barriers. -/
structure NormSchedule where
  sums : Turns 256
  reduce : Rounds 256
  outs : Turns 256

/-- The squares that a lane adds up. -/
def squares (base : Nat) (lane : Nat) : F :=
  (strided dim 256 lane).foldl (fun acc i =>
    let v := x ((base + i) % 2 ^ 32)
    acc + v * v) 0

/-- The stores of a workgroup of `rmsnorm` into `y`. -/
def rmsnormGroup (s : NormSchedule) (row : Nat) (red : Unit × Nat → F) : List (Nat × F) :=
  let base := row * dim % 2 ^ 32
  let red := inTurn (fun (lane : Fin 256) red =>
    Function.update red ((), lane.val) (squares dim x base lane)) s.sums.order red
  let red := treeReduce s.reduce.order 8 red
  let inv := 1 / gl.math.sqrt (red ((), 0) / dim + eps)
  s.outs.order.flatMap fun (lane : Fin 256) => (strided dim 256 lane).map fun i =>
    ((base + i) % 2 ^ 32, x ((base + i) % 2 ^ 32) * inv * w i)

/-- A workgroup that runs: its number, its schedule and what its shared memory holds at first. -/
structure NormRun (F : Type) where
  wg : Nat
  schedule : NormSchedule
  red : Unit × Nat → F

omit [Field F] in
theorem laneSums_actsAlone {n : Nat} (acc : Fin n → F) : ActsAlone
    (fun (lane : Fin n) (red : Unit × Nat → F) => Function.update red ((), lane.val) (acc lane))
    fun lane red => red ((), lane.val) where
  frame lane lane' red hne := by
    simp [Fin.val_ne_of_ne hne]
  reads lane red red' _ := by
    simp

variable {gl dim eps x w}

/-- What the first lane finds behind the barriers. -/
theorem squares_reduced (s : NormSchedule) (base : Nat) (red : Unit × Nat → F) :
    treeReduce s.reduce.order 8 (inTurn (fun (lane : Fin 256) red =>
      Function.update red ((), lane.val) (squares dim x base lane)) s.sums.order red) ((), 0) =
        ∑ i ∈ Finset.range dim, x ((base + i) % 2 ^ 32) * x ((base + i) % 2 ^ 32) := by
  rw [treeReduce_eq 8 () fun j _ => s.reduce.orders j, ← sum_strided dim 256 _ (by decide)]
  refine Finset.sum_congr rfl fun l hl => ?_
  have hlane := (laneSums_actsAlone (fun lane : Fin 256 => squares dim x base lane)).inTurn_own
    s.sums.nodup (s.sums.mem ⟨l, Finset.mem_range.1 hl⟩) red
  refine hlane.trans ?_
  rw [Function.update_self, squares,
    foldl_add_list fun i => x ((base + i) % 2 ^ 32) * x ((base + i) % 2 ^ 32), zero_add]

/-- A workgroup stores the norm of its row. -/
theorem mem_rmsnormGroup {rows row : Nat} (hfits : rows * dim ≤ 2 ^ 32) (hrow : row < rows)
    (s : NormSchedule) (red : Unit × Nat → F) {t : Nat × F} :
    t ∈ rmsnormGroup gl dim eps x w s row red ↔ ∃ i < dim, t = (row * dim + i,
      Decode.MoeBlock.rms gl.math dim eps w (fun i => x (row * dim + i)) i) := by
  have hnext : (row + 1) * dim ≤ rows * dim := Nat.mul_le_mul_right _ hrow
  rw [Nat.succ_mul] at hnext
  have hcell : ∀ i < dim, (row * dim % 2 ^ 32 + i) % 2 ^ 32 = row * dim + i := by
    intro i hi
    rw [Nat.mod_eq_of_lt (a := row * dim) (by omega), Nat.mod_eq_of_lt (by omega)]
  have hstore : ∀ i < dim, (((row * dim % 2 ^ 32 + i) % 2 ^ 32, x ((row * dim % 2 ^ 32 + i) % 2 ^ 32) *
      (1 / gl.math.sqrt ((∑ i ∈ Finset.range dim, x ((row * dim % 2 ^ 32 + i) % 2 ^ 32) *
        x ((row * dim % 2 ^ 32 + i) % 2 ^ 32)) / dim + eps)) * w i) : Nat × F) =
      (row * dim + i, Decode.MoeBlock.rms gl.math dim eps w (fun i => x (row * dim + i)) i) := by
    intro i hi
    have hsum : ∑ i ∈ Finset.range dim, x ((row * dim % 2 ^ 32 + i) % 2 ^ 32) *
        x ((row * dim % 2 ^ 32 + i) % 2 ^ 32) =
          ∑ i ∈ Finset.range dim, x (row * dim + i) * x (row * dim + i) :=
      Finset.sum_congr rfl fun i hi => by rw [hcell i (Finset.mem_range.1 hi)]
    rw [hsum, hcell i hi, Decode.MoeBlock.rms]
  unfold rmsnormGroup
  simp only [squares_reduced, List.mem_flatMap, List.mem_map]
  constructor
  · rintro ⟨lane, hlane, i, hi, rfl⟩
    have hi : i < dim := ((Lib.mem_strided lane.isLt).1 hi).1
    exact ⟨i, hi, hstore i hi⟩
  · rintro ⟨i, hi, rfl⟩
    obtain ⟨lane, hlane, hmem⟩ := (s.outs.mem_strided (by decide)).2 hi
    exact ⟨lane, hlane, i, hmem, hstore i hi⟩

/-- The rows of a dispatch are those of `vg_cpu_rmsnorm`. -/
theorem rmsnorm_exact {rows : Nat} {runs : List (NormRun F)} {stores : List (Nat × F)}
    (hfits : rows * dim ≤ 2 ^ 32) (hruns : (runs.map NormRun.wg).Perm (List.range rows))
    (hstores : stores.Perm (runs.flatMap fun r => rmsnormGroup gl dim eps x w r.schedule r.wg r.red))
    (y : Nat → F) {row i : Nat} (hrow : row < rows) (hi : i < dim) :
    storeAll y stores (row * dim + i) =
      Decode.MoeBlock.rms gl.math dim eps w (fun i => x (row * dim + i)) i := by
  have hwg : ∀ r ∈ runs, r.wg < rows := fun r hr =>
    List.mem_range.1 (hruns.mem_iff.1 (List.mem_map_of_mem hr))
  apply storeAll_of_stored
  · intro t ht heq
    obtain ⟨r, hr, ht⟩ := List.mem_flatMap.1 (hstores.mem_iff.1 ht)
    obtain ⟨i', hi', rfl⟩ := (mem_rmsnormGroup hfits (hwg r hr) r.schedule r.red).1 ht
    obtain ⟨hsame, rfl⟩ := Decode.head_cell_inj hi hi' heq
    rw [hsame]
  · obtain ⟨r, hr, rfl⟩ := List.mem_map.1 (hruns.mem_iff.2 (List.mem_range.2 hrow))
    have hmem : (r.wg * dim + i, Decode.MoeBlock.rms gl.math dim eps w (fun i => x (r.wg * dim + i)) i) ∈
        rmsnormGroup gl dim eps x w r.schedule r.wg r.red :=
      (mem_rmsnormGroup hfits hrow r.schedule r.red).2 ⟨i, hi, rfl⟩
    exact ⟨_, hstores.mem_iff.2 (List.mem_flatMap.2 ⟨r, hr, hmem⟩), rfl⟩

end Norm

section Elements

variable {F : Type} [Field F] (gl : Glsl F)

/-- The store of an invocation of `swiglu`. -/
def swigluMain (dim : Nat) (gate up : Nat → F) (i : Nat) : List (Nat × F) :=
  if dim ≤ i then []
  else
    let g := gate i
    [(i, g / (1 + gl.math.exp (-g)) * up i)]

/-- The store of an invocation of `resid_add`. -/
def residAddMain (n : Nat) (a b : Nat → F) (i : Nat) : List (Nat × F) :=
  if n ≤ i then [] else [(i, a i + b i)]

/-- Invocations that each store one element, in any order. -/
theorem storeAll_each {α : Type} {main : Nat → List (Nat × α)} {value : Nat → α} {n N : Nat}
    (hmain : ∀ i, main i = if n ≤ i then [] else [(i, value i)]) (hN : n ≤ N)
    {stores : List (Nat × α)} (hstores : stores.Perm ((List.range N).flatMap main)) (y : Nat → α) :
    ∀ i < n, storeAll y stores i = value i := by
  have hmem : ∀ t, t ∈ stores ↔ t.1 < n ∧ t.2 = value t.1 := by
    intro t
    rw [hstores.mem_iff]
    simp only [List.mem_flatMap, List.mem_range, hmain]
    constructor
    · rintro ⟨i, hi, ht⟩
      split_ifs at ht with hle
      · cases ht
      · simp only [List.mem_singleton] at ht
        exact ht ▸ ⟨Nat.not_le.1 hle, rfl⟩
    · rintro ⟨hlt, hval⟩
      refine ⟨t.1, Nat.lt_of_lt_of_le hlt hN, ?_⟩
      rw [if_neg (Nat.not_le.2 hlt), List.mem_singleton, ← hval]
  intro i hi
  apply storeAll_of_stored
  · intro t ht heq
    exact heq ▸ ((hmem t).1 ht).2
  · exact ⟨(i, value i), (hmem _).2 ⟨hi, rfl⟩, rfl⟩

end Elements

section Quantizer

variable {F : Type} [Field F] [LinearOrder F] (gl : Glsl F)

/-- `amax` of a block. -/
def blockMax (x : Nat → F) (b : Nat) : F :=
  (List.range 32).foldl (fun amax i => if amax < |x (b * 32 + i)| then |x (b * 32 + i)| else amax) 0

/-- The scale of a block of activations. -/
def q8Scale (x : Nat → F) (b : Nat) : F := blockMax x b / 127

def q8Inverse (d : F) : F := if 0 < d then 1 / d else 0

/-- An activation in steps of its block. -/
def q8Round (x : Nat → F) (b i : Nat) : Int := gl.round (x (b * 32 + i) * q8Inverse (q8Scale x b))

def q8Code (x : Nat → F) (b i : Nat) : Int := clampCode (q8Round gl x b i)

/-- The stores of an invocation of `activation_quant_q8` into `xd` and into `xq`. -/
def actQuantMain (nblocks : Nat) (x : Nat → F) (b : Nat) : List (Nat × F) × List (Nat × UInt32) :=
  if nblocks ≤ b then ([], [])
  else
    let base := b * 32 % 2 ^ 32
    let amax := (List.range 32).foldl (fun amax i =>
      let a := |x ((base + i) % 2 ^ 32)|
      if amax < a then a else amax) 0
    let d := amax / 127
    let id := if 0 < d then 1 / d else 0
    let qbase := b * 8 % 2 ^ 32
    ([(b, d)], (List.range 8).map fun g => ((qbase + g) % 2 ^ 32, (List.range 4).foldl (fun w j =>
      let q := gl.round (x ((base + g * 4 + j) % 2 ^ 32) * id)
      let q := min (max q (-128)) 127
      w ||| (UInt32.ofInt q &&& 0xFF) <<< UInt32.ofNat (j * 8)) 0))

theorem lowByte (q : Int) : UInt32.ofInt q &&& 0xFF = UInt32.ofNat (q % 256).toNat := by
  have hlow : ∀ n : Nat, n &&& 0xFF = n % 256 := fun n => Nat.and_two_pow_sub_one_eq_mod n 8
  apply UInt32.toNat_inj.1
  rw [UInt32.toNat_and, UInt32.toNat_ofNat']
  change (UInt32.ofInt q).toNat &&& 0xFF = _
  rw [hlow, UInt32.ofInt, UInt32.toNat_ofNat']
  omega

theorem clampCode_eq (q : Int) : min (max q (-128)) 127 = clampCode q := by
  unfold clampCode
  dsimp only
  split_ifs <;> omega

variable {gl} {x : Nat → F} {nb : Nat}

/-- An invocation does for its block what `quantize_row_q8_0_host` does. -/
theorem actQuantMain_eq (hfits : nb * 32 ≤ 2 ^ 32) {b : Nat} (hb : b < nb) :
    actQuantMain gl nb x b = ([(b, q8Scale x b)], (List.range 8).map fun g =>
      (b * 8 + g, packCodes fun j => q8Code gl x b (g * 4 + j))) := by
  have hcell : ∀ i < 32, (b * 32 % 2 ^ 32 + i) % 2 ^ 32 = b * 32 + i := fun i hi => by omega
  have hmax : (List.range 32).foldl (fun amax i =>
      if amax < |x ((b * 32 % 2 ^ 32 + i) % 2 ^ 32)| then |x ((b * 32 % 2 ^ 32 + i) % 2 ^ 32)|
      else amax) 0 = blockMax x b := by
    apply List.foldl_ext
    intro amax i hi
    rw [hcell i (List.mem_range.1 hi)]
  unfold actQuantMain
  dsimp only
  rw [if_neg (Nat.not_le.2 hb), hmax]
  refine Prod.ext rfl ?_
  dsimp only
  refine List.map_congr_left fun g hg => ?_
  have hg : g < 8 := List.mem_range.1 hg
  refine Prod.ext (by dsimp only; omega) ?_
  dsimp only [packCodes]
  refine List.foldl_ext _ _ _ fun w j hj => ?_
  have hj : j < 4 := List.mem_range.1 hj
  rw [clampCode_eq, lowByte, Nat.add_assoc (b * 32 % 2 ^ 32), hcell _ (by omega)]
  rfl

/-- Whichever order the invocations and their stores take, the buffers hold what the host writes. -/
theorem actQuant_exact {order : List Nat} {groups : Nat} {stores : List (Nat × F)}
    {words : List (Nat × UInt32)} (hfits : nb * 32 ≤ 2 ^ 32) (hgroups : nb ≤ groups)
    (horder : order.Perm (List.range groups))
    (hstores : stores.Perm (order.flatMap fun b => (actQuantMain gl nb x b).1))
    (hwords : words.Perm (order.flatMap fun b => (actQuantMain gl nb x b).2))
    (xd : Nat → F) (xq : Words) :
    (∀ b < nb, storeAll xd stores b = q8Scale x b) ∧
      ∀ b < nb, ∀ g < 8, storeAll xq words (b * 8 + g) =
        packCodes fun j => q8Code gl x b (g * 4 + j) := by
  constructor
  · refine storeAll_each (fun b => ?_) hgroups (hstores.trans (horder.flatMap_right _)) xd
    split_ifs with hb
    · simp [actQuantMain, hb]
    · rw [actQuantMain_eq hfits (Nat.not_le.1 hb)]
  · intro b hb g hg
    have hmem : ∀ t, t ∈ words ↔ ∃ b < nb, ∃ g < 8,
        t = (b * 8 + g, packCodes fun j => q8Code gl x b (g * 4 + j)) := by
      intro t
      rw [hwords.mem_iff, (horder.flatMap_right _).mem_iff]
      simp only [List.mem_flatMap, List.mem_range]
      constructor
      · rintro ⟨b, -, ht⟩
        by_cases hle : nb ≤ b
        · simp [actQuantMain, hle] at ht
        · rw [actQuantMain_eq hfits (Nat.not_le.1 hle), List.mem_map] at ht
          obtain ⟨g, hg, rfl⟩ := ht
          exact ⟨b, Nat.not_le.1 hle, g, List.mem_range.1 hg, rfl⟩
      · rintro ⟨b, hb, g, hg, rfl⟩
        refine ⟨b, Nat.lt_of_lt_of_le hb hgroups, ?_⟩
        rw [actQuantMain_eq hfits hb]
        exact List.mem_map_of_mem (List.mem_range.2 hg)
    apply storeAll_of_stored
    · intro t ht heq
      obtain ⟨b', -, g', hg', rfl⟩ := (hmem t).1 ht
      obtain ⟨rfl, rfl⟩ : b' = b ∧ g' = g := by
        dsimp only at heq
        omega
      rfl
    · exact ⟨_, (hmem _).2 ⟨b, hb, g, hg, rfl⟩, rfl⟩

end Quantizer

section Rope

open Decode

variable {F : Type} [Field F] (m : Libm F) (p : RopeAdj F) (rf : Nat → F)

/-- `freq` -/
def pairAngle (i : Nat) : F :=
  let freq := p.pos * m.powf p.thetaBase (-2 * (i : ℚ) / p.nRot)
  if p.hasFreqs ≠ 0 then freq / rf i else freq

/-- An element of a head whose adjacent pairs are turned, as far as they are rotary. -/
def rotated (v : Nat → F) (h r : Nat) : F :=
  let i := r / 2
  let a := v (h * p.headDim + 2 * i)
  let b := v (h * p.headDim + 2 * i + 1)
  let c := m.cosf (pairAngle m p rf i)
  let s := m.sinf (pairAngle m p rf i)
  if i < p.nRot / 2 then if r % 2 = 0 then a * c - b * s else a * s + b * c
  else v (h * p.headDim + r)

/-- The pass of an invocation that makes one. -/
def ropePass (linear : Nat) : Rotation F :=
  let i := linear % (p.nRot / 2)
  let h := linear / (p.nRot / 2)
  ⟨h * p.headDim + 2 * i, h * p.headDim + 2 * i + 1, pairAngle m p rf i⟩

variable {p} {order : List Nat} {invocations : Nat}

omit [Field F] in
theorem ropePass_bounds (hrot : p.nRot ≤ p.headDim) {linear : Nat}
    (hlinear : linear < p.nRot / 2 * p.nHead) :
    linear / (p.nRot / 2) < p.nHead ∧ linear % (p.nRot / 2) < p.nRot / 2 ∧
      2 * (linear % (p.nRot / 2)) + 1 < p.headDim := by
  have hpos : 0 < p.nRot / 2 := Nat.pos_of_ne_zero fun hzero => by simp [hzero] at hlinear
  have hlast := Nat.mod_lt linear hpos
  exact ⟨Nat.div_lt_of_lt_mul hlinear, hlast, by omega⟩

theorem ropePasses_perm (horder : order.Perm (List.range invocations))
    (hall : p.nRot / 2 * p.nHead ≤ invocations) (hrot : p.nRot ≤ p.headDim)
    (hfits : p.nHead * p.headDim ≤ 2 ^ 32) :
    (order.filterMap (ropeAdjMain m p rf)).Perm
      ((List.range (p.nRot / 2 * p.nHead)).map (ropePass m p rf)) := by
  have htotal : p.nRot / 2 * p.nHead % 2 ^ 32 = p.nRot / 2 * p.nHead := by
    have hhalf : p.nHead * (p.nRot / 2 * 2) ≤ p.nHead * p.headDim :=
      Nat.mul_le_mul_left _ (by omega)
    rw [← Nat.mul_assoc, Nat.mul_comm p.nHead] at hhalf
    exact Nat.mod_eq_of_lt (by omega)
  refine (horder.filterMap _).trans (.of_eq ?_)
  refine filterMap_range_map hall (fun linear hlinear => ?_) (fun linear hlinear => ?_)
  · obtain ⟨hhead, hpair, hcell⟩ := ropePass_bounds hrot hlinear
    have hnext : (linear / (p.nRot / 2) + 1) * p.headDim ≤ p.nHead * p.headDim :=
      Nat.mul_le_mul_right _ hhead
    rw [Nat.succ_mul] at hnext
    simp only [ropeAdjMain, htotal, if_neg (Nat.not_le.2 hlinear), ropePass, pairAngle]
    generalize linear / (p.nRot / 2) * p.headDim = base at hnext ⊢
    generalize linear % (p.nRot / 2) = i at hcell ⊢
    have hbase : base % 2 ^ 32 = base := Nat.mod_eq_of_lt (by omega)
    have hfirst : (base + 2 * i) % 2 ^ 32 = base + 2 * i := Nat.mod_eq_of_lt (by omega)
    have hsecond : (base + 2 * i + 1) % 2 ^ 32 = base + 2 * i + 1 := Nat.mod_eq_of_lt (by omega)
    rw [hbase, hfirst, hsecond]
  · simp only [ropeAdjMain, htotal, if_pos hlinear]

theorem nodup_ropePasses (hrot : p.nRot ≤ p.headDim) :
    (touched ((List.range (p.nRot / 2 * p.nHead)).map (ropePass m p rf))).Nodup := by
  have hsame : ∀ i < p.nRot / 2 * p.nHead, ∀ k < p.nRot / 2 * p.nHead, ∀ a < 2, ∀ b < 2,
      i / (p.nRot / 2) * p.headDim + (2 * (i % (p.nRot / 2)) + a) =
        k / (p.nRot / 2) * p.headDim + (2 * (k % (p.nRot / 2)) + b) → i = k ∧ a = b := by
    intro i hi k hk a ha b hb heq
    have hcell := (ropePass_bounds hrot hi).2.2
    have hcell' := (ropePass_bounds hrot hk).2.2
    obtain ⟨hhead, hrest⟩ := head_cell_inj (by omega) (by omega) heq
    have hpair : i % (p.nRot / 2) = k % (p.nRot / 2) := by omega
    refine ⟨?_, by omega⟩
    rw [← Nat.div_add_mod i (p.nRot / 2), ← Nat.div_add_mod k (p.nRot / 2), hhead, hpair]
  refine nodup_touched (fun i hi k hk heq => ?_) (fun i hi k hk heq => ?_) (fun i hi k hk heq => ?_)
  · exact (hsame i hi k hk 0 (by decide) 0 (by decide) heq).1
  · exact (hsame i hi k hk 1 (by decide) 1 (by decide) heq).1
  · exact absurd (hsame i hi k hk 0 (by decide) 1 (by decide) heq).2 (by decide)

/-- Every head has its rotary pairs turned once, and nothing else, whatever the order of the
invocations. -/
theorem ropeAdj_exact (horder : order.Perm (List.range invocations))
    (hall : p.nRot / 2 * p.nHead ≤ invocations) (hrot : p.nRot ≤ p.headDim)
    (hfits : p.nHead * p.headDim ≤ 2 ^ 32) (qk : Nat → F) {h r : Nat} (hh : h < p.nHead)
    (hr : r < p.headDim) :
    (order.filterMap (ropeAdjMain m p rf)).foldl (Rotation.apply m) qk (h * p.headDim + r) =
      rotated m p rf qk h r := by
  have hperm := ropePasses_perm m rf horder hall hrot hfits
  have honce : (touched (order.filterMap (ropeAdjMain m p rf))).Nodup :=
    (hperm.flatMap_right _).nodup_iff.2 (nodup_ropePasses m rf hrot)
  have hturned := foldl_apply_turned m (v := qk) honce
  by_cases hpair : r / 2 < p.nRot / 2
  · -- the invocation of the pair
    have hlinear : h * (p.nRot / 2) + r / 2 < p.nRot / 2 * p.nHead := by
      have hnext : (h + 1) * (p.nRot / 2) ≤ p.nHead * (p.nRot / 2) := Nat.mul_le_mul_right _ hh
      rw [Nat.succ_mul, Nat.mul_comm p.nHead] at hnext
      omega
    have hpass : ropePass m p rf (h * (p.nRot / 2) + r / 2) =
        ⟨h * p.headDim + 2 * (r / 2), h * p.headDim + 2 * (r / 2) + 1, pairAngle m p rf (r / 2)⟩ := by
      rw [ropePass, Nat.mul_comm h, Nat.mul_add_mod, Nat.mod_eq_of_lt hpair,
        Nat.mul_add_div (by omega), Nat.div_eq_of_lt hpair, Nat.add_zero]
    have hmem := hperm.mem_iff.2 (List.mem_map_of_mem (List.mem_range.2 hlinear))
    have hcells := hturned _ hmem
    rw [hpass] at hcells
    simp only [rotated, if_pos hpair]
    split_ifs with heven
    · have hcell : h * p.headDim + r = h * p.headDim + 2 * (r / 2) := by omega
      exact (congrArg _ hcell).trans hcells.1
    · have hcell : h * p.headDim + r = h * p.headDim + 2 * (r / 2) + 1 := by omega
      exact (congrArg _ hcell).trans hcells.2
  · simp only [rotated, if_neg hpair]
    apply foldl_apply_of_notMem
    rw [mem_touched]
    rintro ⟨pass, hpass, heq⟩
    obtain ⟨linear, hlinear, rfl⟩ := List.mem_map.1 (hperm.mem_iff.1 hpass)
    obtain ⟨-, hi, hcell⟩ := ropePass_bounds hrot (List.mem_range.1 hlinear)
    simp only [ropePass] at heq
    rcases heq with heq | heq
    · have hsame := (head_cell_inj (d := 2 * (linear % (p.nRot / 2))) (by omega) hr heq).2
      omega
    · have hsame := (head_cell_inj (d := 2 * (linear % (p.nRot / 2)) + 1) hcell hr heq).2
      omega

end Rope

/-- What a buffer holds, read as floats and read as words. -/
structure Cells (F : Type) where
  floats : Nat → F
  words : Words

section Runs

/-- `vkCmdCopyBuffer` between arrays of 32-bit elements. -/
def overlaid {α : Type} (bytes offset : UInt64) (src dst : Nat → α) (i : Nat) : α :=
  if offset.toNat / 4 ≤ i ∧ i < offset.toNat / 4 + bytes.toNat / 4 then src (i - offset.toNat / 4)
  else dst i

def normInOrder : NormSchedule := ⟨inOrderTurns 256, inOrderRounds 256, inOrderTurns 256⟩

variable {F : Type} [Field F] [LinearOrder F] (gl : Glsl F) (fl : Quant.Floats F)

/-- Each dispatch is a run of its shader, in some order of its workgroups, lanes and stores, over
whatever the buffers and the shared memory held before. -/
structure RunsShaders (K : Kernels Pipeline F (Cells F)) : Prop where
  matvecQ8_0 : ∀ (groups rows cols : UInt32) (w s xd xq : Cells F),
    ∃ (y : Nat → F) (runs : List (GroupRun F)) (stores : List (Nat × F)),
      (runs.map GroupRun.wg).Perm (List.range groups.toNat) ∧
      stores.Perm (runs.flatMap fun r => matvecGroup fl
        ⟨w.words, s.words, xd.floats, xq.words, rows.toNat, cols.toNat⟩ r.schedule r.wg r.red) ∧
      (K.main .matvecQ8_0 groups [.uint rows, .uint cols] [w, s, xd, xq] 0).floats =
        storeAll y stores
  actQuant : ∀ (groups nb : UInt32) (x : Cells F),
    ∃ (order : List Nat) (xd : Nat → F) (xq : Words) (stores : List (Nat × F))
      (words : List (Nat × UInt32)),
      order.Perm (List.range groups.toNat) ∧
      stores.Perm (order.flatMap fun b => (actQuantMain gl nb.toNat x.floats b).1) ∧
      words.Perm (order.flatMap fun b => (actQuantMain gl nb.toNat x.floats b).2) ∧
      (K.main .actQuant groups [.uint nb] [x] 0).floats = storeAll xd stores ∧
      (K.main .actQuant groups [.uint nb] [x] 1).words = storeAll xq words
  attnScores : ∀ (groups hd nh nkv stride keys : UInt32) (q k v : Cells F),
    ∃ (o : Nat → F) (runs : List (AttnRun F)) (stores : List (Nat × F)),
      (runs.map AttnRun.wg).Perm (List.range groups.toNat) ∧
      stores.Perm (runs.flatMap fun r => attnGroup gl
        ⟨hd.toNat, nh.toNat, nkv.toNat, stride.toNat, keys.toNat⟩ q.floats k.floats v.floats
          r.schedule r.wg r.shared) ∧
      (K.main .attnScores groups [.uint hd, .uint nh, .uint nkv, .uint stride, .uint keys]
        [q, k, v] 0).floats = storeAll o stores
  rmsnorm : ∀ (groups dim : UInt32) (eps : F) (x w : Cells F),
    ∃ (y : Nat → F) (runs : List (NormRun F)) (stores : List (Nat × F)),
      (runs.map NormRun.wg).Perm (List.range groups.toNat) ∧
      stores.Perm (runs.flatMap fun r =>
        rmsnormGroup gl dim.toNat eps x.floats w.floats r.schedule r.wg r.red) ∧
      (K.main .rmsnorm groups [.uint dim, .float eps] [x, w] 0).floats = storeAll y stores
  ropeAdj : ∀ (groups hd nrot nh pos : UInt32) (base : F) (hf : UInt32) (qk freq : Cells F),
    ∃ order : List Nat, order.Perm (List.range (groups.toNat * 64)) ∧
      (K.main .ropeAdj groups [.uint hd, .uint nrot, .uint nh, .uint pos, .float base, .uint hf]
        [qk, freq] 0).floats =
          (order.filterMap (Decode.ropeAdjMain gl.rotation
            ⟨hd.toNat, nrot.toNat, nh.toNat, pos.toNat, base, hf.toNat⟩ freq.floats)).foldl
              (Decode.Rotation.apply gl.rotation) qk.floats
  swiglu : ∀ (groups n : UInt32) (gate up : Cells F),
    ∃ (y : Nat → F) (stores : List (Nat × F)),
      stores.Perm ((List.range (groups.toNat * 256)).flatMap
        (swigluMain gl n.toNat gate.floats up.floats)) ∧
      (K.main .swiglu groups [.uint n] [gate, up] 0).floats = storeAll y stores
  residAdd : ∀ (groups n : UInt32) (a b : Cells F),
    ∃ (y : Nat → F) (stores : List (Nat × F)),
      stores.Perm ((List.range (groups.toNat * 256)).flatMap
        (residAddMain n.toNat a.floats b.floats)) ∧
      (K.main .residAdd groups [.uint n] [a, b] 0).floats = storeAll y stores
  copy : ∀ (bytes offset : UInt64) (src dst : Cells F),
    K.copy bytes offset src dst = ⟨overlaid bytes offset src.floats dst.floats,
      overlaid bytes offset src.words dst.words⟩

/-- The shaders with their workgroups, lanes and stores one after the other. -/
def shaderKernels : Kernels Pipeline F (Cells F) where
  main
    | .matvecQ8_0, groups, [.uint rows, .uint cols], [w, s, xd, xq], _ =>
      ⟨storeAll 0 (((List.range groups.toNat).map fun wg => ⟨wg, inOrder, 0⟩).flatMap
        fun r : GroupRun F => matvecGroup fl
          ⟨w.words, s.words, xd.floats, xq.words, rows.toNat, cols.toNat⟩ r.schedule r.wg r.red), 0⟩
    | .actQuant, groups, [.uint nb], [x], _ =>
      ⟨storeAll 0 ((List.range groups.toNat).flatMap fun b => (actQuantMain gl nb.toNat x.floats b).1),
        storeAll 0 ((List.range groups.toNat).flatMap fun b => (actQuantMain gl nb.toNat x.floats b).2)⟩
    | .attnScores, groups, [.uint hd, .uint nh, .uint nkv, .uint stride, .uint keys], [q, k, v], _ =>
      ⟨storeAll 0 ((attnRuns groups.toNat).flatMap fun r => attnGroup gl
        ⟨hd.toNat, nh.toNat, nkv.toNat, stride.toNat, keys.toNat⟩ q.floats k.floats v.floats
          r.schedule r.wg r.shared), 0⟩
    | .rmsnorm, groups, [.uint dim, .float eps], [x, w], _ =>
      ⟨storeAll 0 (((List.range groups.toNat).map fun wg => ⟨wg, normInOrder, 0⟩).flatMap
        fun r : NormRun F =>
          rmsnormGroup gl dim.toNat eps x.floats w.floats r.schedule r.wg r.red), 0⟩
    | .ropeAdj, groups, [.uint hd, .uint nrot, .uint nh, .uint pos, .float base, .uint hf],
        [qk, freq], _ =>
      ⟨((List.range (groups.toNat * 64)).filterMap (Decode.ropeAdjMain gl.rotation
        ⟨hd.toNat, nrot.toNat, nh.toNat, pos.toNat, base, hf.toNat⟩ freq.floats)).foldl
          (Decode.Rotation.apply gl.rotation) qk.floats, 0⟩
    | .swiglu, groups, [.uint n], [gate, up], _ =>
      ⟨storeAll 0 ((List.range (groups.toNat * 256)).flatMap
        (swigluMain gl n.toNat gate.floats up.floats)), 0⟩
    | .residAdd, groups, [.uint n], [a, b], _ =>
      ⟨storeAll 0 ((List.range (groups.toNat * 256)).flatMap
        (residAddMain n.toNat a.floats b.floats)), 0⟩
    | _, _, _, _, _ => ⟨0, 0⟩
  copy bytes offset src dst := ⟨overlaid bytes offset src.floats dst.floats,
    overlaid bytes offset src.words dst.words⟩

theorem shaderKernels_run : RunsShaders gl fl (shaderKernels gl fl) where
  matvecQ8_0 groups rows cols w s xd xq :=
    ⟨0, (List.range groups.toNat).map fun wg => ⟨wg, inOrder, 0⟩, _,
      by simp [Function.comp_def], .refl _, rfl⟩
  actQuant groups nb x := ⟨List.range groups.toNat, 0, 0, _, _, .refl _, .refl _, .refl _, rfl, rfl⟩
  attnScores groups hd nh nkv stride keys q k v :=
    ⟨0, attnRuns groups.toNat, _, by simp [attnRuns, Function.comp_def], .refl _, rfl⟩
  rmsnorm groups dim eps x w :=
    ⟨0, (List.range groups.toNat).map fun wg => ⟨wg, normInOrder, 0⟩, _,
      by simp [Function.comp_def], .refl _, rfl⟩
  ropeAdj groups hd nrot nh pos base hf qk freq := ⟨List.range (groups.toNat * 64), .refl _, rfl⟩
  swiglu groups n gate up := ⟨0, _, .refl _, rfl⟩
  residAdd groups n a b := ⟨0, _, .refl _, rfl⟩
  copy _ _ _ _ := rfl

end Runs

section Values

variable {F : Type} [Field F] [LinearOrder F] {gl : Glsl F} {fl : Quant.Floats F}
variable {K : Kernels Pipeline F (Cells F)}

theorem RunsShaders.rnorm (h : RunsShaders gl fl K) {dim : UInt32} {eps : F} {x w : Cells F} :
    ∀ i < dim.toNat, (K.rnorm dim eps x w).floats i =
      Decode.MoeBlock.rms gl.math dim.toNat eps w.floats x.floats i := by
  intro i hi
  obtain ⟨y, runs, stores, hruns, hstores, heq⟩ := h.rmsnorm 1 dim eps x w
  have hfits : 1 * dim.toNat ≤ 2 ^ 32 := by
    have hdim := dim.toNat_lt
    omega
  have hrow := rmsnorm_exact hfits hruns hstores y Nat.one_pos hi
  rw [Nat.zero_mul, Nat.zero_add] at hrow
  simpa [Kernels.rnorm, heq] using hrow

/-- A row of `n` invocations in workgroups of 256. -/
theorem covered {n : UInt32} (hn : n.toNat + 255 < 2 ^ 32) :
    n.toNat ≤ ((n + 255) / 256).toNat * 256 := by
  rw [UInt32.toNat_div, UInt32.toNat_add]
  change n.toNat ≤ (n.toNat + 255) % 2 ^ 32 / 256 * 256
  omega

theorem RunsShaders.swish (h : RunsShaders gl fl K) {n : UInt32} {gate up : Cells F}
    (hn : n.toNat + 255 < 2 ^ 32) : ∀ i < n.toNat, (K.swish n gate up).floats i =
      Decode.MoeBlock.silu gl.math (gate.floats i) * up.floats i := by
  obtain ⟨y, stores, hstores, heq⟩ := h.swiglu ((n + 255) / 256) n gate up
  rw [Kernels.swish, heq]
  exact storeAll_each (fun _ => rfl) (covered hn) hstores y

theorem RunsShaders.radd (h : RunsShaders gl fl K) {n : UInt32} {a b : Cells F}
    (hn : n.toNat + 255 < 2 ^ 32) :
    ∀ i < n.toNat, (K.radd n a b).floats i = a.floats i + b.floats i := by
  obtain ⟨y, stores, hstores, heq⟩ := h.residAdd ((n + 255) / 256) n a b
  rw [Kernels.radd, heq]
  exact storeAll_each (fun _ => rfl) (covered hn) hstores y

variable (gl) in
/-- Two buffers hold a vector in blocks: the scales, and the packed codes. -/
structure Quantized (x : Nat → F) (nb : Nat) (xd xq : Cells F) : Prop where
  scales : ∀ b < nb, xd.floats b = q8Scale x b
  codes : ∀ b < nb, ∀ g < 8, xq.words (b * 8 + g) = packCodes fun j => q8Code gl x b (g * 4 + j)

variable (gl) in
/-- Two buffers in which the host has quantized a vector. -/
structure Staged (x : Nat → F) (nb : Nat) (xd xq : Cells F) : Prop where
  scales : ∃ fresh, xd.floats =
    storeAll fresh (quantizeRowQ8_0Host (q8Scale x) (q8Round gl x) nb).1
  codes : ∃ fresh, xq.words = storeAll fresh (quantizeRowQ8_0Host (q8Scale x) (q8Round gl x) nb).2

theorem Staged.quantized {x : Nat → F} {nb : Nat} {xd xq : Cells F} (h : Staged gl x nb xd xq) :
    Quantized gl x nb xd xq := by
  obtain ⟨⟨fresh, hxd⟩, fresh', hxq⟩ := h
  obtain ⟨hscales, hcodes⟩ := quantizeRowQ8_0Host_fills (q8Scale x) (q8Round gl x) nb
  constructor
  · intro b hb
    rw [hxd, hscales.storeAll, if_pos hb]
  · intro b hb g hg
    rw [hxq, hcodes.storeAll, if_pos (show b * 8 + g < nb * 8 by omega),
      show (b * 8 + g) / 8 = b by omega, show (b * 8 + g) % 8 = g by omega]
    rfl

theorem RunsShaders.quant (h : RunsShaders gl fl K) {nb : UInt32} {x : Cells F}
    (hfits : nb.toNat * 32 ≤ 2 ^ 32) :
    Quantized gl x.floats nb.toNat (K.quant nb x 0) (K.quant nb x 1) := by
  obtain ⟨order, xd, xq, stores, words, horder, hstores, hwords, hxd, hxq⟩ := h.actQuant nb nb x
  have hexact := actQuant_exact hfits le_rfl horder hstores hwords xd xq
  rw [← hxd, ← hxq] at hexact
  exact ⟨hexact.1, hexact.2⟩

/-- The buffers of a weight hold what the host makes of its blocks. -/
structure Repacked (wdata : Quant.Ptr) (rows cols : UInt32) (w s : Cells F) : Prop where
  blocks : 0 < cols.toNat / 32
  words : 8 * (rows.toNat * (cols.toNat / 32)) ≤ 2 ^ 32
  codes : ∃ fresh, w.words = repackCodes wdata (rows.toNat * (cols.toNat / 32)) fresh
  scales : ∃ fresh, s.words = repackScales wdata (rows.toNat * (cols.toNat / 32)) fresh

variable (gl fl) in
/-- A row of a weight on a vector that is quantized in blocks. -/
def q8Product (wdata : Quant.Ptr) (cols : Nat) (x : Nat → F) (row : Nat) : F :=
  blockDot fl wdata (q8Scale x) (q8Code gl x) (cols / 32) row

/-- A product on quantized activations. -/
theorem RunsShaders.mvec (h : RunsShaders gl fl K) {wdata : Quant.Ptr} {rows cols : UInt32}
    {w s xd xq : Cells F} {x : Nat → F} (hw : Repacked wdata rows cols w s)
    (hx : Quantized gl x (cols.toNat / 32) xd xq) :
    ∀ row < rows.toNat, (K.mvec rows cols w s xd xq).floats row =
      q8Product gl fl wdata cols.toNat x row := by
  intro row hrow
  obtain ⟨y, runs, stores, hruns, hstores, heq⟩ := h.matvecQ8_0 ((rows + 7) / 8) rows cols w s xd xq
  have hprep : Prepared ⟨w.words, s.words, xd.floats, xq.words, rows.toNat, cols.toNat⟩ wdata
      (q8Scale x) (q8Code gl x) :=
    ⟨hw.words, hw.codes, hw.scales, hx.scales, hx.codes, fun _ _ => clampCode_bounds _⟩
  have hrows : rows.toNat ≤ rows.toNat * (cols.toNat / 32) := Nat.le_mul_of_pos_right _ hw.blocks
  have hwords := hw.words
  have hgroups : ((rows + 7) / 8).toNat = (rows.toNat + 7) / 8 := by
    rw [UInt32.toNat_div, UInt32.toNat_add]
    change (rows.toNat + 7) % 2 ^ 32 / 8 = _
    rw [Nat.mod_eq_of_lt (by omega)]
  rw [hgroups] at hruns
  rw [Kernels.mvec, heq]
  exact hprep.stored hw.blocks hruns hstores y hrow

/-- The blocks of a vector with `cols` elements. -/
theorem RunsShaders.quantBlocks (h : RunsShaders gl fl K) {cols : UInt32} {x : Cells F} :
    Quantized gl x.floats (cols.toNat / 32) (K.quant (cols / 32) x 0) (K.quant (cols / 32) x 1) := by
  have hblocks : (cols / 32).toNat = cols.toNat / 32 := UInt32.toNat_div cols 32
  have hcols := cols.toNat_lt
  rw [← hblocks]
  exact h.quant (by omega)

theorem RunsShaders.matvec (h : RunsShaders gl fl K) {wdata : Quant.Ptr} {rows cols : UInt32}
    {w s x : Cells F} (hw : Repacked wdata rows cols w s) :
    ∀ row < rows.toNat, (K.matvec rows cols w s x).floats row =
      q8Product gl fl wdata cols.toNat x.floats row :=
  h.mvec hw h.quantBlocks

end Values

section Blocks

variable {F : Type} [Field F] [LinearOrder F] (gl : Glsl F) (fl : Quant.Floats F)

/-- The matrices of a feed-forward block in the file. -/
structure FfnMatrices where
  gate : Quant.Ptr
  up : Quant.Ptr
  down : Quant.Ptr

variable (t : FfnMatrices) (o : Quant.Ptr) (D Q FF : Nat) (eps : F) (normW x resid : Nat → F)

/-- The feed-forward block of a vector. -/
def FfnMatrices.value : Nat → F :=
  q8Product gl fl t.down FF fun j =>
    Decode.MoeBlock.silu gl.math (q8Product gl fl t.gate D x j) * q8Product gl fl t.up D x j

/-- The residual stream behind the attention, whose output is `x`. -/
def residualValue (i : Nat) : F := q8Product gl fl o Q x i + resid i

/-- The residual stream behind the layer. -/
def FfnMatrices.layerValue (i : Nat) : F :=
  t.value gl fl D FF
    (Decode.MoeBlock.rms gl.math D eps normW (residualValue gl fl o Q x resid)) i +
      residualValue gl fl o Q x resid i

variable {gl fl} {t}
variable {K : Kernels Pipeline F (Cells F)}

omit [Field F] [LinearOrder F] in
theorem overlaid_front {α : Type} {bytes : UInt64} {src dst : Nat → α} {i : Nat}
    (hi : i < bytes.toNat / 4) : overlaid bytes 0 src dst i = src i := by
  simp [overlaid, hi]

theorem toNat_bytes (n : UInt32) {k : UInt64} (hk : k.toNat ≤ 32) :
    (n.toUInt64 * k).toNat = n.toNat * k.toNat := by
  rw [UInt64.toNat_mul, UInt32.toNat_toUInt64]
  refine Nat.mod_eq_of_lt ?_
  calc n.toNat * k.toNat ≤ 2 ^ 32 * 32 := Nat.mul_le_mul n.toNat_lt.le hk
    _ < 2 ^ 64 := by decide

/-- A vector that is copied. -/
theorem RunsShaders.copied (h : RunsShaders gl fl K) {n : UInt32} {src dst : Cells F} {i : Nat}
    (hi : i < n.toNat) : (K.copy (n.toUInt64 * 4) 0 src dst).floats i = src.floats i := by
  rw [h.copy]
  refine overlaid_front ?_
  rw [toNat_bytes n (by decide)]
  change i < n.toNat * 4 / 4
  omega

/-- The activations of a product beyond its columns do not matter. -/
theorem q8Product_congr {wdata : Quant.Ptr} {cols : Nat} {x x' : Nat → F}
    (h : ∀ i < cols, x i = x' i) (row : Nat) :
    q8Product gl fl wdata cols x row = q8Product gl fl wdata cols x' row := by
  unfold q8Product blockDot
  refine Finset.sum_congr rfl fun gb hgb => ?_
  have hgb : gb < cols / 32 := Finset.mem_range.1 hgb
  have hblock : ∀ i < 32, x (gb * 32 + i) = x' (gb * 32 + i) := fun i hi => h _ (by omega)
  have hscale : q8Scale x gb = q8Scale x' gb := by
    unfold q8Scale blockMax
    rw [List.foldl_ext _ _ _ fun amax i hi => by rw [hblock i (List.mem_range.1 hi)]]
  have hcode : ∀ i < 32, q8Code gl x gb i = q8Code gl x' gb i := by
    intro i hi
    rw [q8Code, q8Code, q8Round, q8Round, hscale, hblock i hi]
  rw [hscale]
  refine congrArg (_ * ·) (congrArg Int.cast (Finset.sum_congr rfl fun i hi => ?_))
  rw [hcode i (Finset.mem_range.1 hi)]

omit [LinearOrder F] in
theorem rms_congr {eps : F} {dim : Nat} {normW x x' : Nat → F} (h : ∀ i < dim, x i = x' i) {i : Nat}
    (hi : i < dim) : Decode.MoeBlock.rms gl.math dim eps normW x i =
      Decode.MoeBlock.rms gl.math dim eps normW x' i := by
  have hsum : ∑ j ∈ Finset.range dim, x j * x j = ∑ j ∈ Finset.range dim, x' j * x' j :=
    Finset.sum_congr rfl fun j hj => by rw [h j (Finset.mem_range.1 hj)]
  rw [Decode.MoeBlock.rms, Decode.MoeBlock.rms, hsum, h i hi]

omit [Field F] [LinearOrder F] in
/-- The workgroups of a row of the product do not wrap around. -/
theorem Repacked.rows_lt {wdata : Quant.Ptr} {rows cols : UInt32} {w s : Cells F}
    (h : Repacked wdata rows cols w s) : rows.toNat + 255 < 2 ^ 32 := by
  have hrows := Nat.le_mul_of_pos_right rows.toNat h.blocks
  have hwords := h.words
  omega

theorem FfnMatrices.value_congr {D FF : Nat} {x x' : Nat → F} (h : ∀ i < D, x i = x' i) (i : Nat) :
    t.value gl fl D FF x i = t.value gl fl D FF x' i := by
  refine q8Product_congr (fun j _ => ?_) i
  rw [q8Product_congr h, q8Product_congr h]

theorem RunsShaders.ffn (h : RunsShaders gl fl K) {D FF : UInt32} {gw gs uw us dw ds xd xq : Cells F}
    {x : Nat → F} (hgate : Repacked t.gate FF D gw gs) (hup : Repacked t.up FF D uw us)
    (hdown : Repacked t.down D FF dw ds) (hx : Quantized gl x (D.toNat / 32) xd xq) :
    ∀ i < D.toNat, (K.ffn D FF gw gs uw us dw ds xd xq).floats i =
      t.value gl fl D.toNat FF.toNat x i := by
  intro i hi
  refine (h.matvec hdown i hi).trans (q8Product_congr (fun j hj => ?_) i)
  rw [h.swish hgate.rows_lt j hj, h.mvec hgate hx j hj, h.mvec hup hx j hj]

end Blocks

section Heads

open Decode

variable {F : Type} [Field F] {gl : Glsl F}

/-- The cells of a head decide what its pairs are turned into. -/
theorem rotated_congr {p : RopeAdj F} {rf rf' v v' : Nat → F} (hrot : p.nRot ≤ p.headDim)
    (hv : ∀ j < p.nHead * p.headDim, v j = v' j) (hrf : p.hasFreqs ≠ 0 → rf = rf') {h r : Nat}
    (hh : h < p.nHead) (hr : r < p.headDim) :
    rotated gl.rotation p rf v h r = rotated gl.rotation p rf' v' h r := by
  have hcell : ∀ c < p.headDim, v (h * p.headDim + c) = v' (h * p.headDim + c) := by
    intro c hc
    have hnext : (h + 1) * p.headDim ≤ p.nHead * p.headDim := Nat.mul_le_mul_right _ hh
    rw [Nat.succ_mul] at hnext
    exact hv _ (by omega)
  have hangle : pairAngle gl.rotation p rf (r / 2) = pairAngle gl.rotation p rf' (r / 2) := by
    unfold pairAngle
    split_ifs with hfreqs
    · rw [hrf hfreqs]
    · rfl
  unfold rotated
  dsimp only
  by_cases hpair : r / 2 < p.nRot / 2
  · have hsecond : v (h * p.headDim + 2 * (r / 2) + 1) = v' (h * p.headDim + 2 * (r / 2) + 1) :=
      hcell (2 * (r / 2) + 1) (by omega)
    rw [if_pos hpair, if_pos hpair, hcell (2 * (r / 2)) (by omega), hsecond, hangle]
  · rw [if_neg hpair, if_neg hpair, hcell r hr]

variable [LinearOrder F] {fl : Quant.Floats F} {K : Kernels Pipeline F (Cells F)}

theorem RunsShaders.rope (h : RunsShaders gl fl K) {hd nh nrot pos hf : UInt32} {base : F}
    {qk freq : Cells F} {rf v : Nat → F} (hrot : nrot.toNat ≤ hd.toNat)
    (hfits : nh.toNat * hd.toNat ≤ 2 ^ 32) (hv : ∀ j < nh.toNat * hd.toNat, qk.floats j = v j)
    (hrf : hf.toNat ≠ 0 → freq.floats = rf) : ∀ i < nh.toNat * hd.toNat,
      (K.rope hd nh nrot pos base hf qk freq).floats i =
        rotated gl.rotation ⟨hd.toNat, nrot.toNat, nh.toNat, pos.toNat, base, hf.toNat⟩ rf v
          (i / hd.toNat) (i % hd.toNat) := by
  intro i hi
  have hpos : 0 < hd.toNat := Nat.pos_of_ne_zero fun hzero => by simp [hzero] at hi
  have hhead : i / hd.toNat < nh.toNat := Nat.div_lt_of_lt_mul (Nat.mul_comm .. ▸ hi)
  have hcell : i % hd.toNat < hd.toNat := Nat.mod_lt i hpos
  obtain ⟨order, horder, heq⟩ := h.ropeAdj ((nrot / 2 * nh + 63) / 64) hd nrot nh pos base hf qk freq
  have hpairs : nrot.toNat / 2 * nh.toNat * 2 ≤ nh.toNat * hd.toNat := by
    calc nrot.toNat / 2 * nh.toNat * 2 = nh.toNat * (nrot.toNat / 2 * 2) := by ring
      _ ≤ nh.toNat * hd.toNat := Nat.mul_le_mul_left _ (by omega)
  have hall : nrot.toNat / 2 * nh.toNat ≤ ((nrot / 2 * nh + 63) / 64).toNat * 64 := by
    rw [UInt32.toNat_div, UInt32.toNat_add, UInt32.toNat_mul, UInt32.toNat_div]
    change _ ≤ (nrot.toNat / 2 * nh.toNat % 2 ^ 32 + 63) % 2 ^ 32 / 64 * 64
    omega
  have hexact := ropeAdj_exact gl.rotation
    (p := ⟨hd.toNat, nrot.toNat, nh.toNat, pos.toNat, base, hf.toNat⟩) freq.floats horder hall hrot
    hfits qk.floats hhead hcell
  rw [Nat.div_add_mod'] at hexact
  rw [Kernels.rope, heq, hexact]
  exact rotated_congr hrot hv hrf hhead hcell

theorem RunsShaders.attn [IsStrictOrderedRing F] (h : RunsShaders gl fl K)
    (hexp : MoeBlock.ExpLaws gl.math) {d₀ : DenseLayer} {pos : UInt32} {q k v : Cells F}
    {pc : AttnScores}
    (hpc : pc = ⟨d₀.HD.toNat, d₀.H.toNat, d₀.HKV.toNat, d₀.KVdim.toNat, (pos + 1).toNat⟩)
    (hfits : pc.Fits) {x : Nat → F} (hq : ∀ j < pc.nHead * pc.headDim, q.floats j = x j) :
    ∀ i < pc.nHead * pc.headDim, (K.attn d₀ pos q k v).floats i =
      attnValue gl pc x k.floats v.floats pc.nk (i / pc.headDim) (i % pc.headDim) := by
  intro i hi
  have hpos : 0 < pc.headDim := Nat.pos_of_ne_zero fun hzero => by simp [hzero] at hi
  have hhead : i / pc.headDim < pc.nHead := Nat.div_lt_of_lt_mul (Nat.mul_comm .. ▸ hi)
  obtain ⟨o, runs, stores, hruns, hstores, heq⟩ :=
    h.attnScores d₀.H d₀.HD d₀.H d₀.HKV d₀.KVdim (pos + 1) q k v
  rw [← hpc] at hstores
  have hscore : attnScore gl pc q.floats k.floats (i / pc.headDim) =
      attnScore gl pc x k.floats (i / pc.headDim) := by
    funext j
    have hnext : (i / pc.headDim + 1) * pc.headDim ≤ pc.nHead * pc.headDim :=
      Nat.mul_le_mul_right _ hhead
    rw [Nat.succ_mul] at hnext
    have hdot : ∀ d ∈ Finset.range pc.headDim, q.floats (i / pc.headDim * pc.headDim + d) =
        x (i / pc.headDim * pc.headDim + d) := by
      intro d hd
      have hd := Finset.mem_range.1 hd
      exact hq _ (by omega)
    rw [attnScore, attnScore, Finset.sum_congr rfl fun d hd => by rw [hdot d hd]]
  have hexact := attnScores_exact hexp hfits (hpc ▸ hruns) hstores o hhead (Nat.mod_lt i hpos)
  rw [Nat.div_add_mod'] at hexact
  rw [Kernels.attn, heq, hexact, attnValue, attnValue, hscore]

end Heads

section Zero

theorem storeAll_zero {α : Type} [Zero α] {stores : List (Nat × α)} (h : ∀ t ∈ stores, t.2 = 0) :
    storeAll 0 stores = 0 := by
  induction stores with
  | nil => rfl
  | cons t ts ih =>
    have hcell : Function.update (0 : Nat → α) t.1 t.2 = 0 := by
      rw [h t List.mem_cons_self]
      exact Function.update_eq_self t.1 0
    rw [storeAll, List.foldl_cons, hcell]
    exact ih fun t' ht' => h t' (List.mem_cons_of_mem _ ht')

/-- A matrix of zeros, in cleared buffers. -/
theorem repacked_zero {F : Type} [Zero F] {rows cols : UInt32} (hblocks : 0 < cols.toNat / 32)
    (hwords : 8 * (rows.toNat * (cols.toNat / 32)) ≤ 2 ^ 32) :
    Repacked 0 rows cols (⟨0, 0⟩ : Cells F) ⟨0, 0⟩ := by
  have hhalf : ∀ i, Quant.Ptr.u16 0 i = 0 := fun _ => rfl
  refine ⟨hblocks, hwords, ⟨0, ?_⟩, ⟨0, ?_⟩⟩
  · rw [repackCodes, storeAll_zero]
    · rfl
    · intro t ht
      simp only [storesAt, List.mem_flatMap, List.mem_map] at ht
      obtain ⟨b, -, s, ⟨k, -, rfl⟩, rfl⟩ := ht
      rfl
  · symm
    apply storeAll_zero
    intro t ht
    obtain ⟨k, -, rfl⟩ := List.mem_map.1 ht
    simp [hhalf]

theorem staged_zero (nb : Nat) : Staged realGlsl 0 nb ⟨0, 0⟩ ⟨0, 0⟩ := by
  have hmax : ∀ b, blockMax (0 : Nat → ℝ) b = 0 := by
    intro b
    exact List.foldl_fixed' (fun _ => by simp) _
  have hround : ∀ b i, q8Round realGlsl 0 b i = 0 := by
    intro b i
    simp [q8Round, realGlsl]
  refine ⟨⟨0, (storeAll_zero fun t ht => ?_).symm⟩, ⟨0, (storeAll_zero fun t ht => ?_).symm⟩⟩
  · obtain ⟨b, -, rfl⟩ := List.mem_map.1 ht
    simp [q8Scale, hmax]
  · obtain ⟨b, -, ht⟩ := List.mem_flatMap.1 ht
    obtain ⟨g, -, rfl⟩ := List.mem_map.1 ht
    simp only [hround]
    rfl

noncomputable def realFloats : Quant.Floats ℝ where
  single bits := Quant.exactFloats.single bits
  double bits := Quant.exactFloats.double bits

end Zero

end VgEngine.Vulkan
