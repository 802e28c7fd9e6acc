import VgEngine.Decode.Rope
import Mathlib.Analysis.SpecialFunctions.Pow.Real
import Mathlib.Analysis.SpecialFunctions.Trigonometric.Basic

/-! Which elements of a head the rotary loops turn. The branch for `rope_freqs` turns those below
`n_rot`; `vg_cpu_rope` pairs each of them with the one half a head further on. -/
namespace VgEngine.Decode

section Tables

variable {F : Type*} [Field F] (m : Libm F) (headDim nRot : Nat)

/-- `vg_cpu_rope_table`: what it stores for a pair. -/
def vgCpuRopeTable (freqScale thetaBase : F) (pos : Int) (i : Nat) : F × F :=
  let inv : ℚ := 2 * (i : ℚ) / headDim
  let freq := pos * freqScale * m.powf thetaBase (-inv)
  (m.cosf freq, m.sinf freq)

/-- `vg_cpu_rope_apply` -/
def vgCpuRopeApply (cosTab sinTab : Nat → F) (v : Nat → F) : Nat → F :=
  let half := headDim / 2
  (List.range (if nRot < half then nRot else half)).foldl (fun v i =>
    let c := cosTab i
    let s := sinTab i
    let a := v i
    let b := v (i + half)
    Function.update (Function.update v i (a * c - b * s)) (i + half) (a * s + b * c)) v

/-- The tables give the rotations of `vg_cpu_rope`. -/
theorem vgCpuRopeApply_table (freqScale thetaBase : F) (pos : Int) (v : Nat → F) :
    vgCpuRopeApply headDim nRot
        (fun i => (vgCpuRopeTable m headDim freqScale thetaBase pos i).1)
        (fun i => (vgCpuRopeTable m headDim freqScale thetaBase pos i).2) v =
      (vgCpuRope m headDim nRot thetaBase freqScale pos v none).1 := by
  rw [vgCpuRope_query, cpuRopePasses, List.foldl_map]
  rfl

end Tables

section Touched

variable {F : Type*} {passes : List (Rotation F)} {v v' : Nat → F} {j n : Nat}

/-- The elements that the passes turn, pair by pair. -/
def touched (passes : List (Rotation F)) : List Nat := passes.flatMap fun r => [r.first, r.second]

theorem touched_cons (r : Rotation F) (passes : List (Rotation F)) :
    touched (r :: passes) = r.first :: r.second :: touched passes := rfl

theorem mem_touched : j ∈ touched passes ↔ ∃ r ∈ passes, j = r.first ∨ j = r.second := by
  simp [touched]

theorem nodup_touched {first second : Nat → Nat} {angle : Nat → F}
    (hfirst : ∀ i < n, ∀ k < n, first i = first k → i = k)
    (hsecond : ∀ i < n, ∀ k < n, second i = second k → i = k)
    (hapart : ∀ i < n, ∀ k < n, first i ≠ second k) :
    (touched ((List.range n).map fun i => ⟨first i, second i, angle i⟩)).Nodup := by
  unfold touched
  rw [List.flatMap_map, List.nodup_flatMap]
  constructor
  · intro i hi
    have hi := List.mem_range.1 hi
    simp [hapart i hi i hi]
  · apply List.Pairwise.imp_of_mem ?_ List.nodup_range
    intro i k hi hk hne
    have hi := List.mem_range.1 hi
    have hk := List.mem_range.1 hk
    have h11 : first k ≠ first i := fun h => hne (hfirst k hk i hi h).symm
    have h12 : first k ≠ second i := hapart k hk i hi
    have h21 : second k ≠ first i := (hapart i hi k hk).symm
    have h22 : second k ≠ second i := fun h => hne (hsecond k hk i hi h).symm
    simp [Function.onFun, h11, h12, h21, h22]

variable [Field F] (m : Libm F)

theorem apply_of_ne {r : Rotation F} (hfirst : j ≠ r.first) (hsecond : j ≠ r.second) :
    r.apply m v j = v j := by
  simp [Rotation.apply, Function.update_of_ne, hfirst, hsecond]

/-- The passes leave what they do not turn. -/
theorem foldl_apply_of_notMem (h : j ∉ touched passes) :
    passes.foldl (Rotation.apply m) v j = v j := by
  induction passes generalizing v with
  | nil => rfl
  | cons r passes ih =>
    rw [touched_cons, List.mem_cons, List.mem_cons, not_or, not_or] at h
    rw [List.foldl_cons, ih h.2.2, apply_of_ne m h.1 h.2.1]

/-- The two elements of a pass have been turned. -/
def Turned (v v' : Nat → F) (r : Rotation F) : Prop :=
  v' r.first = v r.first * m.cosf r.angle - v r.second * m.sinf r.angle ∧
    v' r.second = v r.first * m.sinf r.angle + v r.second * m.cosf r.angle

/-- Where no element is in two pairs, each pair is turned from what was there at first. -/
theorem foldl_apply_turned (h : (touched passes).Nodup) :
    ∀ r ∈ passes, Turned m v (passes.foldl (Rotation.apply m) v) r := by
  induction passes generalizing v with
  | nil => simp
  | cons r passes ih =>
    rw [touched_cons, List.nodup_cons, List.nodup_cons, List.mem_cons, not_or] at h
    obtain ⟨⟨hne, hfirst⟩, hsecond, hrest⟩ := h
    intro r' hr'
    rw [List.foldl_cons]
    rcases List.mem_cons.1 hr' with rfl | hr'
    · unfold Turned
      rw [foldl_apply_of_notMem m hfirst, foldl_apply_of_notMem m hsecond]
      simp [Rotation.apply, Function.update_of_ne, hne]
    · have hkept (k : Nat) (hk : k ∈ touched passes) : r.apply m v k = v k := by
        apply apply_of_ne
        · exact fun heq => hfirst (heq ▸ hk)
        · exact fun heq => hsecond (heq ▸ hk)
      have hturned := ih (v := r.apply m v) hrest r' hr'
      unfold Turned at hturned ⊢
      rwa [hkept r'.first (mem_touched.2 ⟨r', hr', Or.inl rfl⟩),
        hkept r'.second (mem_touched.2 ⟨r', hr', Or.inr rfl⟩)] at hturned

/-- The passes turn exactly the elements below `n`, each in one pair, and what comes out is `v`
with its pairs turned and all else as it was. -/
structure RotatesBelow (n : Nat) (passes : List (Rotation F)) (v v' : Nat → F) : Prop where
  once : (touched passes).Nodup
  below : ∀ j, j ∈ touched passes ↔ j < n
  turned : ∀ r ∈ passes, Turned m v v' r
  frame : ∀ j, n ≤ j → v' j = v j

theorem rotatesBelow_foldl (honce : (touched passes).Nodup)
    (hbelow : ∀ j, j ∈ touched passes ↔ j < n) (v : Nat → F) :
    RotatesBelow m n passes v (passes.foldl (Rotation.apply m) v) where
  once := honce
  below := hbelow
  turned := foldl_apply_turned m honce
  frame j hj := foldl_apply_of_notMem m fun h => Nat.not_lt.2 hj ((hbelow j).1 h)

end Touched

section Frame

variable {F : Type*} [Field F] (m : Libm F) {headDim nRot : Nat} (freqBase freqScale : F)

theorem mem_touched_cpuRope {pos : Int} {j : Nat} :
    j ∈ touched (cpuRopePasses m headDim nRot freqBase freqScale pos) ↔
      ∃ i, i < nRot ∧ i < headDim / 2 ∧ (j = i ∨ j = i + headDim / 2) := by
  have hiters (i : Nat) : i < (if nRot < headDim / 2 then nRot else headDim / 2) ↔
      i < nRot ∧ i < headDim / 2 := by
    split_ifs <;> omega
  rw [mem_touched]
  unfold cpuRopePasses
  simp [hiters, and_assoc]

theorem nodup_touched_cpuRope (pos : Int) :
    (touched (cpuRopePasses m headDim nRot freqBase freqScale pos)).Nodup := by
  apply nodup_touched
  · exact fun i _ k _ h => h
  · exact fun i _ k _ h => Nat.add_right_cancel h
  · intro i hi k _
    split_ifs at hi <;> omega

/-- The branch of `attention_layer` turns the elements below `n_rot`. -/
theorem ropeFreqsBranch_rotatesBelow (heven : Even nRot) (hrot : nRot ≤ headDim) (pos : Nat)
    (ropeFreqs hq : Nat → F) :
    RotatesBelow m nRot (ropeFreqsPasses m headDim nRot freqBase pos ropeFreqs) hq
      (ropeFreqsBranch m headDim nRot freqBase pos ropeFreqs hq) := by
  obtain ⟨n, rfl⟩ := heven
  have hpairs : min ((n + n) / 2) (headDim / 2) = n := by omega
  apply rotatesBelow_foldl
  · unfold ropeFreqsPasses
    apply nodup_touched
    · omega
    · omega
    · omega
  · intro j
    rw [mem_touched]
    unfold ropeFreqsPasses
    rw [hpairs]
    simp only [List.mem_map, List.mem_range, exists_exists_and_eq_and]
    constructor
    · rintro ⟨i, hi, hj⟩
      omega
    · exact fun hj => ⟨j / 2, by omega, by omega⟩

variable (headDim nRot) in
/-- What `vg_cpu_rope` makes of the query and, where there are any, of the keys. -/
def CpuRopeRotatesBelow (pos : Int) : Prop :=
  ∀ (q : Nat → F) (k : Option (Nat → F)),
    let out := vgCpuRope m headDim nRot freqBase freqScale pos q k
    RotatesBelow m nRot (cpuRopePasses m headDim nRot freqBase freqScale pos) q out.1 ∧
      ∀ x ∈ k, ∃ y ∈ out.2,
        RotatesBelow m nRot (cpuRopePasses m headDim nRot freqBase freqScale pos) x y

theorem vgCpuRope_keys (pos : Int) (q : Nat → F) (k : Option (Nat → F)) :
    (vgCpuRope m headDim nRot freqBase freqScale pos q k).2 =
      k.map fun k => (cpuRopePasses m headDim nRot freqBase freqScale pos).foldl
        (Rotation.apply m) k := by
  unfold vgCpuRope
  generalize cpuRopePasses m headDim nRot freqBase freqScale pos = passes
  induction passes generalizing q k with
  | nil => simp
  | cons r passes ih =>
    rw [List.foldl_cons, ih, Option.map_map]
    rfl

/-- The elements that `vg_cpu_rope` turns are those below `n_rot`, as in the branch, exactly when
there are none or they make up the head, but for the last one of an odd head. -/
theorem cpuRope_rotatesBelow_iff (heven : Even nRot) (hrot : nRot ≤ headDim) (pos : Int) :
    CpuRopeRotatesBelow m headDim nRot freqBase freqScale pos ↔ nRot = 0 ∨ headDim ≤ nRot + 1 := by
  obtain ⟨n, rfl⟩ := heven
  constructor
  · intro h
    have hbelow := (h 0 none).1.below
    by_contra hnot
    rw [not_or] at hnot
    -- the partner of element 0 is at half a head, and the last partner at or above that
    by_cases hsmall : n + n ≤ headDim / 2
    · have htouched := (hbelow (headDim / 2)).1
        ((mem_touched_cpuRope m freqBase freqScale).2 ⟨0, by omega, by omega, by omega⟩)
      omega
    · have htouched := (hbelow (headDim / 2 - 1 + headDim / 2)).1
        ((mem_touched_cpuRope m freqBase freqScale).2 ⟨headDim / 2 - 1, by omega, by omega, by omega⟩)
      omega
  · intro h q k
    have hbelow (j : Nat) :
        j ∈ touched (cpuRopePasses m headDim (n + n) freqBase freqScale pos) ↔ j < n + n := by
      rw [mem_touched_cpuRope]
      constructor
      · rintro ⟨i, hi, hhalf, hj⟩
        omega
      · intro hj
        by_cases hlow : j < headDim / 2
        · exact ⟨j, by omega, hlow, Or.inl rfl⟩
        · exact ⟨j - headDim / 2, by omega, by omega, by omega⟩
    have hrotates := rotatesBelow_foldl m (nodup_touched_cpuRope m freqBase freqScale pos) hbelow
    dsimp only
    rw [vgCpuRope_query, vgCpuRope_keys]
    refine ⟨hrotates q, fun x hx => ⟨_, Option.mem_map_of_mem _ hx, hrotates x⟩⟩

theorem cpuRope_rotatesBelow_whole :
    CpuRopeRotatesBelow plainLibm 4 4 10000 1 7 ↔ 4 = 0 ∨ 4 ≤ 4 + 1 :=
  cpuRope_rotatesBelow_iff plainLibm 10000 1 (by decide) (by decide) 7

/-- The functions of the maths library, exact. -/
noncomputable def exactLibm : Libm ℝ := ⟨fun b e => b ^ (e : ℝ), Real.cos, Real.sin⟩

/-- In a head of four of which two elements are to be turned, element 2 gets the sine of element
0. -/
theorem cpuRope_turns_further :
    ¬ ∀ (headDim nRot : Nat) (pos : Int), Even nRot → nRot ≤ headDim →
      CpuRopeRotatesBelow exactLibm headDim nRot 10000 1 pos := by
  intro hclaim
  have hframe := (hclaim 4 2 1 (by decide) (by decide) (fun j => if j = 0 then 1 else 0) none).1.frame 2
    (Nat.le_refl 2)
  have hsin : Real.sin 1 = 0 := by
    simpa [vgCpuRope, cpuRopePasses, List.range_succ, Rotation.apply, exactLibm,
      Function.update_apply] using hframe
  have hpos : 0 < Real.sin 1 :=
    Real.sin_pos_of_pos_of_lt_pi one_pos (one_lt_two.trans_le Real.two_le_pi)
  exact absurd hsin hpos.ne'

end Frame

end VgEngine.Decode
