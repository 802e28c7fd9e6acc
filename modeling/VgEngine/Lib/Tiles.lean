import Mathlib.Data.List.Basic

/-! Half-open ranges of numbers, one after the other, and partitions of an interval into ranges. -/
namespace VgEngine.Lib

/-- The ranges follow each other from `lo` to `hi`. -/
def Tiles : Nat → Nat → List (Nat × Nat) → Prop
  | lo, hi, [] => lo = hi
  | lo, hi, r :: rs => r.1 = lo ∧ r.1 ≤ r.2 ∧ Tiles r.2 hi rs

/-- How many of the ranges an index is in. -/
def hits (i : Nat) (rs : List (Nat × Nat)) : Nat := rs.countP fun r => r.1 ≤ i ∧ i < r.2

/-- Ranges within `[0, n)`, disjoint, that cover each index once. -/
structure Partitions (n : Nat) (rs : List (Nat × Nat)) : Prop where
  within : ∀ r ∈ rs, r.1 ≤ r.2 ∧ r.2 ≤ n
  disjoint : rs.Pairwise fun r r' => r.2 ≤ r'.1 ∨ r'.2 ≤ r.1
  covers : ∀ i < n, hits i rs = 1

section Tiles

variable {lo hi i n : Nat} {rs rs' : List (Nat × Nat)}

theorem Tiles.le (h : Tiles lo hi rs) : lo ≤ hi := by
  induction rs generalizing lo with
  | nil => exact Nat.le_of_eq h
  | cons r rs ih =>
    obtain ⟨rfl, hr, hrest⟩ := h
    exact Nat.le_trans hr (ih hrest)

theorem Tiles.within (h : Tiles lo hi rs) : ∀ r ∈ rs, lo ≤ r.1 ∧ r.1 ≤ r.2 ∧ r.2 ≤ hi := by
  induction rs generalizing lo with
  | nil => simp
  | cons r rs ih =>
    obtain ⟨rfl, hr, hrest⟩ := h
    intro r' hr'
    rcases List.mem_cons.1 hr' with rfl | hr'
    · exact ⟨Nat.le_refl _, hr, hrest.le⟩
    · obtain ⟨hlo, hrest'⟩ := ih hrest r' hr'
      exact ⟨Nat.le_trans hr hlo, hrest'⟩

theorem Tiles.pairwise (h : Tiles lo hi rs) :
    rs.Pairwise fun r r' => r.2 ≤ r'.1 ∨ r'.2 ≤ r.1 := by
  induction rs generalizing lo with
  | nil => exact List.Pairwise.nil
  | cons r rs ih =>
    obtain ⟨rfl, hr, hrest⟩ := h
    exact List.Pairwise.cons (fun r' hr' => Or.inl (hrest.within r' hr').1) (ih hrest)

theorem hits_cons (r : Nat × Nat) :
    hits i (r :: rs) = hits i rs + if r.1 ≤ i ∧ i < r.2 then 1 else 0 := by
  unfold hits
  rw [List.countP_cons]
  simp only [decide_eq_true_eq]

theorem Tiles.hits (h : Tiles lo hi rs) : hits i rs = if lo ≤ i ∧ i < hi then 1 else 0 := by
  induction rs generalizing lo with
  | nil =>
    obtain rfl : lo = hi := h
    rw [if_neg (by omega)]
    rfl
  | cons r rs ih =>
    obtain ⟨rfl, hr, hrest⟩ := h
    have hle := hrest.le
    rw [hits_cons, ih hrest]
    split_ifs <;> omega

theorem Tiles.partitions (h : Tiles 0 n rs) : Partitions n rs := by
  refine ⟨fun r hr => (h.within r hr).2, h.pairwise, fun i hi => ?_⟩
  rw [h.hits, if_pos ⟨Nat.zero_le i, hi⟩]

theorem Partitions.perm (h : Partitions n rs) (hperm : rs.Perm rs') : Partitions n rs' := by
  refine ⟨fun r hr => h.within r (hperm.mem_iff.2 hr), ?_, fun i hi => ?_⟩
  · exact (hperm.pairwise_iff fun hr => hr.symm).1 h.disjoint
  · rw [← h.covers i hi]
    exact (hperm.countP_eq _).symm

/-- Each index is in a range. -/
theorem Partitions.covered (h : Partitions n rs) (hi : i < n) : ∃ r ∈ rs, r.1 ≤ i ∧ i < r.2 := by
  have hpositive : 0 < hits i rs := by
    rw [h.covers i hi]
    exact Nat.one_pos
  obtain ⟨r, hr, hin⟩ := List.countP_pos_iff.1 hpositive
  exact ⟨r, hr, of_decide_eq_true hin⟩

theorem partitions_single (n : Nat) : Partitions n [(0, n)] :=
  Tiles.partitions ⟨rfl, Nat.zero_le n, rfl⟩

end Tiles

end VgEngine.Lib
