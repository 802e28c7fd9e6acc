import Mathlib.Data.Rat.Cast.Defs
import Mathlib.Data.List.Perm.Basic
import Mathlib.Tactic.IntervalCases
import Mathlib.Algebra.Field.Basic

/-! The three rotary embeddings: the branch of `attention_layer` for `rope_freqs`, `vg_cpu_rope` and
the shader `rope_adj`. The arithmetic is exact; powers, cosines and sines are any functions. -/
namespace VgEngine.Decode

variable {F : Type*} [Field F]

/-- The functions of the maths library, a power with its base and exponent. -/
structure Libm (F : Type*) where
  powf : F → ℚ → F
  cosf : F → F
  sinf : F → F

variable (m : Libm F)

/-- A pass of one of the loops: the two elements that it turns, and by what angle. -/
structure Rotation (F : Type*) where
  first : Nat
  second : Nat
  angle : F

def Rotation.apply (v : Nat → F) (r : Rotation F) : Nat → F :=
  let c := m.cosf r.angle
  let s := m.sinf r.angle
  let a := v r.first
  let b := v r.second
  Function.update (Function.update v r.first (a * c - b * s)) r.second (a * s + b * c)

section Loops

variable (headDim nRot : Nat) (freqBase : F)

/-- The passes of the branch of `attention_layer`, on one head. -/
def ropeFreqsPasses (pos : Nat) (ropeFreqs : Nat → F) : List (Rotation F) :=
  (List.range (min (nRot / 2) (headDim / 2))).map fun (i : Nat) =>
    let inv := m.powf freqBase (-2 * (i : ℚ) / (if nRot ≠ 0 then nRot else headDim : Nat))
    ⟨2 * i, 2 * i + 1, pos * inv / ropeFreqs i⟩

def ropeFreqsBranch (pos : Nat) (ropeFreqs : Nat → F) (hq : Nat → F) : Nat → F :=
  (ropeFreqsPasses m headDim nRot freqBase pos ropeFreqs).foldl (Rotation.apply m) hq

/-- The passes of `vg_cpu_rope`. -/
def cpuRopePasses (freqScale : F) (pos : Int) : List (Rotation F) :=
  let half := headDim / 2
  (List.range (if nRot < half then nRot else half)).map fun (i : Nat) =>
    let inv : ℚ := 2 * (i : ℚ) / headDim
    ⟨i, i + half, pos * freqScale * m.powf freqBase (-inv)⟩

/-- `k` is `none` where it is `NULL` or `q` itself. -/
def vgCpuRope (freqScale : F) (pos : Int) (q : Nat → F) (k : Option (Nat → F)) :
    (Nat → F) × Option (Nat → F) :=
  (cpuRopePasses m headDim nRot freqBase freqScale pos).foldl
    (fun st r => (Rotation.apply m st.1 r, st.2.map fun k => Rotation.apply m k r)) (q, k)

/-- The keys do not change what becomes of the query. -/
theorem vgCpuRope_query (freqScale : F) (pos : Int) (q : Nat → F) (k : Option (Nat → F)) :
    (vgCpuRope m headDim nRot freqBase freqScale pos q k).1 =
      (cpuRopePasses m headDim nRot freqBase freqScale pos).foldl (Rotation.apply m) q := by
  unfold vgCpuRope
  generalize cpuRopePasses m headDim nRot freqBase freqScale pos = passes
  induction passes generalizing q k with
  | nil => rfl
  | cons r passes ih => exact ih _ _

end Loops

/-- The push constants of `rope_adj`. -/
structure RopeAdj (F : Type*) where
  headDim : Nat
  nRot : Nat
  nHead : Nat
  pos : Nat
  thetaBase : F
  hasFreqs : Nat

/-- The rotation of the invocation `linear`, if it makes one. -/
def ropeAdjMain (p : RopeAdj F) (rf : Nat → F) (linear : Nat) : Option (Rotation F) :=
  let nPairs := p.nRot / 2
  let total := nPairs * p.nHead % 2 ^ 32
  if total ≤ linear then none
  else
    let i := linear % nPairs
    let h := linear / nPairs
    let base := h * p.headDim % 2 ^ 32
    let inv := m.powf p.thetaBase (-2 * (i : ℚ) / p.nRot)
    let freq := p.pos * inv
    let freq := if p.hasFreqs ≠ 0 then freq / rf i else freq
    some ⟨(base + 2 * i) % 2 ^ 32, (base + 2 * i + 1) % 2 ^ 32, freq⟩

/-- The rotations of a dispatch. -/
def ropeAdjPasses (p : RopeAdj F) (rf : Nat → F) (invocations : Nat) : List (Rotation F) :=
  (List.range invocations).filterMap (ropeAdjMain m p rf)

theorem filterMap_range_map {α : Type*} {f : Nat → Option α} {g : Nat → α} {n N : Nat} (hle : n ≤ N)
    (hin : ∀ i < n, f i = some (g i)) (hout : ∀ i, n ≤ i → f i = none) :
    (List.range N).filterMap f = (List.range n).map g := by
  obtain ⟨k, rfl⟩ := Nat.exists_eq_add_of_le hle
  have hrest : ((List.range k).map (n + ·)).filterMap f = [] := by
    rw [List.filterMap_map, List.filterMap_eq_nil_iff]
    exact fun i _ => hout (n + i) (Nat.le_add_right _ _)
  have hfirst : (List.range n).filterMap f = (List.range n).map g := by
    rw [← List.filterMap_eq_map]
    exact List.filterMap_congr fun i hi => hin i (List.mem_range.1 hi)
  rw [List.range_add, List.filterMap_append, hrest, hfirst, List.append_nil]

variable {headDim nRot pos invocations : Nat} (freqBase : F) {ropeFreqs : Nat → F}

/-- The shader is the branch of the graph, whether or not it is given the factors. -/
theorem ropeAdjPasses_eq (hfreqs : ∀ i, ropeFreqs i = 1) (hrot : nRot ≤ headDim)
    (hdim : headDim < 2 ^ 32) (hall : nRot / 2 ≤ invocations) (hasFreqs : Nat) :
    ropeAdjPasses m ⟨headDim, nRot, 1, pos, freqBase, hasFreqs⟩ ropeFreqs invocations =
      ropeFreqsPasses m headDim nRot freqBase pos ropeFreqs := by
  have hpairs : min (nRot / 2) (headDim / 2) = nRot / 2 := by omega
  have htotal : nRot / 2 * 1 % 2 ^ 32 = nRot / 2 := by omega
  unfold ropeAdjPasses ropeFreqsPasses
  rw [hpairs]
  refine filterMap_range_map hall (fun i hi => ?_) (fun i hi => ?_)
  · have hmod : i % (nRot / 2) = i := Nat.mod_eq_of_lt hi
    have hhead : i / (nRot / 2) = 0 := Nat.div_eq_of_lt hi
    have hfirst : (2 * i) % 2 ^ 32 = 2 * i := by omega
    have hsecond : (2 * i + 1) % 2 ^ 32 = 2 * i + 1 := by omega
    have hrot0 : nRot ≠ 0 := by omega
    simp only [ropeAdjMain, htotal, if_neg (Nat.not_le.2 hi), hmod, hhead, Nat.zero_mul,
      Nat.zero_mod, Nat.zero_add, hfirst, hsecond, if_pos hrot0, hfreqs, div_one, ite_self]
  · simp only [ropeAdjMain, htotal, if_pos hi]

/-- The head sizes for which a rotary pair is both two neighbours and the two halves. -/
def PairsCoincide (headDim nRot : Nat) : Prop :=
  nRot = 0 ∨ headDim ≤ 1 ∨ headDim ≤ 3 ∧ 2 ≤ nRot

theorem ropePasses_eq (h : PairsCoincide headDim nRot) (hfreqs : ∀ i, ropeFreqs i = 1)
    (hrot : nRot ≤ headDim) :
    ropeFreqsPasses m headDim nRot freqBase pos ropeFreqs =
      cpuRopePasses m headDim nRot freqBase 1 pos := by
  rcases h with rfl | hdim | ⟨hdim, hrot2⟩
  · by_cases hhalf : 0 < headDim / 2
    · simp [ropeFreqsPasses, cpuRopePasses, hhalf]
    · simp [ropeFreqsPasses, cpuRopePasses, Nat.eq_zero_of_not_pos hhalf]
  · have hhalf : headDim / 2 = 0 := by omega
    simp [ropeFreqsPasses, cpuRopePasses, hhalf]
  · have hhalf : headDim / 2 = 1 := by omega
    have hpairs : nRot / 2 = 1 := by omega
    have hiters : ¬nRot < 1 := by omega
    simp [ropeFreqsPasses, cpuRopePasses, hhalf, hpairs, hiters, hfreqs]

theorem ropeFreqsBranch_eq (h : PairsCoincide headDim nRot) (hfreqs : ∀ i, ropeFreqs i = 1)
    (hrot : nRot ≤ headDim) (hq : Nat → F) :
    ropeFreqsBranch m headDim nRot freqBase pos ropeFreqs hq =
      (vgCpuRope m headDim nRot freqBase 1 pos hq none).1 := by
  rw [vgCpuRope_query, ← ropePasses_eq m freqBase h hfreqs hrot]
  rfl

/-- The first pair of `vg_cpu_rope` reaches to the other half. -/
theorem coincide_of_passes_perm
    (h : (ropeFreqsPasses m headDim nRot freqBase pos ropeFreqs).Perm
      (cpuRopePasses m headDim nRot freqBase 1 pos)) : PairsCoincide headDim nRot := by
  by_contra hnot
  unfold PairsCoincide at hnot
  have hmem : (⟨0, 0 + headDim / 2, ((pos : Int) : F) * 1 *
      m.powf freqBase (-(2 * ((0 : Nat) : ℚ) / headDim))⟩ : Rotation F) ∈
        cpuRopePasses m headDim nRot freqBase 1 pos := by
    refine List.mem_map.2 ⟨0, List.mem_range.2 ?_, rfl⟩
    split_ifs <;> omega
  obtain ⟨i, hi, heq⟩ := List.mem_map.1 (h.mem_iff.2 hmem)
  have hfirst : 2 * i = 0 := congrArg Rotation.first heq
  have hsecond : 2 * i + 1 = 0 + headDim / 2 := congrArg Rotation.second heq
  have hlt := List.mem_range.1 hi
  omega

/-- With all factors equal to one, the three apply the same rotations to a head exactly when its
pairs coincide. The graph and the shader always do. -/
theorem rope_agree_iff (hfreqs : ∀ i, ropeFreqs i = 1) (hrot : nRot ≤ headDim)
    (hdim : headDim < 2 ^ 32) (hall : nRot / 2 ≤ invocations) (hasFreqs : Nat) :
    ((ropeFreqsPasses m headDim nRot freqBase pos ropeFreqs).Perm
        (cpuRopePasses m headDim nRot freqBase 1 pos) ∧
      (ropeFreqsPasses m headDim nRot freqBase pos ropeFreqs).Perm
        (ropeAdjPasses m ⟨headDim, nRot, 1, pos, freqBase, hasFreqs⟩ ropeFreqs invocations)) ↔
      PairsCoincide headDim nRot := by
  rw [ropeAdjPasses_eq m freqBase hfreqs hrot hdim hall]
  constructor
  · exact fun h => coincide_of_passes_perm m freqBase h.1
  · intro h
    rw [ropePasses_eq m freqBase h hfreqs hrot]
    exact ⟨.refl _, .refl _⟩

/-- Powers are the base alone, sines and cosines the angle itself: all that the examples need. -/
def plainLibm : Libm ℚ := ⟨fun b _ => b, id, id⟩

theorem rope_agree_pair :
    ((ropeFreqsPasses plainLibm 2 2 10000 7 fun _ => 1).Perm
        (cpuRopePasses plainLibm 2 2 10000 1 7) ∧
      (ropeFreqsPasses plainLibm 2 2 10000 7 fun _ => 1).Perm
        (ropeAdjPasses plainLibm ⟨2, 2, 1, 7, 10000, 1⟩ (fun _ => 1) 64)) ↔
      PairsCoincide 2 2 :=
  rope_agree_iff plainLibm 10000 (fun _ => rfl) (by decide) (by decide) (by decide) 1

/-- In a head of four, the graph turns 0 with 1 and `vg_cpu_rope` 0 with 2. -/
theorem rope_disagree_four :
    ¬ ∀ (headDim nRot pos : Nat), nRot ≤ headDim →
      (ropeFreqsPasses plainLibm headDim nRot 10000 pos fun _ => 1).Perm
        (cpuRopePasses plainLibm headDim nRot 10000 1 pos) := by
  intro hclaim
  have hperm := hclaim 4 4 1 (by decide)
  have hcoincide := coincide_of_passes_perm plainLibm 10000 hperm
  unfold PairsCoincide at hcoincide
  omega

end VgEngine.Decode
