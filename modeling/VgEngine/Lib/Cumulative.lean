import Mathlib.Algebra.BigOperators.Intervals
import Mathlib.Algebra.Order.BigOperators.Group.Finset
import Mathlib.Algebra.Order.Field.Basic

/-! Cumulative sums: the scan for the first entry at which one reaches a bound, and the intervals
that the normalised sums cut the unit interval into. -/
namespace VgEngine.Cumulative
open Finset

section Scan

variable {K : Type*} [AddCommMonoid K] [LinearOrder K]

/-- The entries from position `i` on, `n` of them, where the sum so far is `acc`. -/
def firstReach (w : Nat → K) (r : K) : Nat → Nat → K → Option Nat
  | 0, _, _ => none
  | n + 1, i, acc =>
    if r ≤ acc + w i then some i else firstReach w r n (i + 1) (acc + w i)

variable {w : Nat → K} {r acc : K} {n i x : Nat}

theorem firstReach_eq_some_iff : firstReach w r n i acc = some x ↔ i ≤ x ∧ x < i + n ∧
    r ≤ acc + ∑ j ∈ Ico i (x + 1), w j ∧
      ∀ y, i ≤ y → y < x → acc + ∑ j ∈ Ico i (y + 1), w j < r := by
  induction n generalizing i acc with
  | zero =>
    rw [firstReach]
    constructor
    · exact fun h => nomatch h
    · rintro ⟨hlo, hhi, -⟩
      omega
  | succ n ih =>
    have hsum (y : Nat) (hy : i ≤ y) : acc + ∑ j ∈ Ico i (y + 1), w j =
        acc + w i + ∑ j ∈ Ico (i + 1) (y + 1), w j := by
      rw [sum_eq_sum_Ico_succ_bot (Nat.lt_succ_of_le hy), add_assoc]
    have hfirst : acc + ∑ j ∈ Ico i (i + 1), w j = acc + w i := by
      rw [hsum i (Nat.le_refl i), Ico_self, sum_empty, add_zero]
    rw [firstReach]
    split
    · rename_i hreach
      rw [Option.some_inj]
      constructor
      · rintro rfl
        exact ⟨Nat.le_refl i, by omega, hfirst ▸ hreach, fun y hlo hhi => by omega⟩
      · rintro ⟨hlo, -, -, hbelow⟩
        rcases Nat.eq_or_lt_of_le hlo with heq | hlt
        · exact heq
        · exact absurd (hfirst ▸ hbelow i (Nat.le_refl i) hlt) (not_lt.2 hreach)
    · rename_i hmiss
      rw [ih]
      constructor
      · rintro ⟨hlo, hhi, hreach, hbelow⟩
        refine ⟨by omega, by omega, hsum x (by omega) ▸ hreach, fun y hy hyx => ?_⟩
        rcases Nat.eq_or_lt_of_le hy with rfl | hlt
        · exact hfirst ▸ not_le.1 hmiss
        · exact hsum y hy ▸ hbelow y hlt hyx
      · rintro ⟨hlo, hhi, hreach, hbelow⟩
        have hne : i ≠ x := by
          rintro rfl
          exact hmiss (hfirst ▸ hreach)
        refine ⟨by omega, by omega, hsum x hlo ▸ hreach, fun y hy hyx => ?_⟩
        exact hsum y (by omega) ▸ hbelow y (by omega) hyx

theorem firstReach_eq_none_iff : firstReach w r n i acc = none ↔
    ∀ y, i ≤ y → y < i + n → acc + ∑ j ∈ Ico i (y + 1), w j < r := by
  constructor
  · intro hnone y hlo hhi
    -- the first of the positions up to `y` that reaches the bound would have been found
    by_contra hreach
    have hex : ∃ x, i ≤ x ∧ r ≤ acc + ∑ j ∈ Ico i (x + 1), w j := ⟨y, hlo, not_lt.1 hreach⟩
    classical
    have hfind := Nat.find_spec hex
    have hle : Nat.find hex ≤ y := Nat.find_min' hex ⟨hlo, not_lt.1 hreach⟩
    have hsome : firstReach w r n i acc = some (Nat.find hex) := by
      refine firstReach_eq_some_iff.2 ⟨hfind.1, by omega, hfind.2, fun z hz hlt => ?_⟩
      exact not_le.1 fun h => Nat.find_min hex hlt ⟨hz, h⟩
    rw [hnone] at hsome
    cases hsome
  · intro hbelow
    cases hfound : firstReach w r n i acc with
    | none => rfl
    | some x =>
      obtain ⟨hlo, hhi, hreach, -⟩ := firstReach_eq_some_iff.1 hfound
      exact absurd (hbelow x hlo hhi) (not_lt.2 hreach)

/-- From the first entry on, the sums are those of the first entries. -/
theorem firstReach_zero_eq_some : firstReach w r n 0 0 = some x ↔ x < n ∧
    r ≤ ∑ j ∈ range (x + 1), w j ∧ ∀ y < x, ∑ j ∈ range (y + 1), w j < r := by
  simp [firstReach_eq_some_iff]

theorem firstReach_zero_eq_none : firstReach w r n 0 0 = none ↔
    ∀ y < n, ∑ j ∈ range (y + 1), w j < r := by
  simp [firstReach_eq_none_iff]

end Scan

section Intervals

variable {K : Type*} [Field K] [LinearOrder K]

/-- The draw `r` falls on entry `x` of `n` weights. -/
structure InInterval (w : Nat → K) (n : Nat) (r : K) (x : Nat) : Prop where
  entry : x < n
  above : (∑ j ∈ range x, w j) / ∑ j ∈ range n, w j ≤ r
  below : r < (∑ j ∈ range (x + 1), w j) / ∑ j ∈ range n, w j

variable [IsStrictOrderedRing K] {w : Nat → K} {n x : Nat} {r : K}

theorem sum_range_le (hw : ∀ j < n, 0 ≤ w j) {m : Nat} (hm : m ≤ n) :
    ∑ j ∈ range m, w j ≤ ∑ j ∈ range n, w j :=
  sum_le_sum_of_subset_of_nonneg (range_mono hm) fun j hj _ => hw j (mem_range.1 hj)

omit [IsStrictOrderedRing K] in
/-- Every draw from the unit interval falls on some entry. -/
theorem exists_inInterval (htotal : 0 < ∑ j ∈ range n, w j)
    (hlow : 0 ≤ r) (hhigh : r < 1) : ∃ x, InInterval w n r x := by
  have hlast : r < (∑ j ∈ range n, w j) / ∑ j ∈ range n, w j := by rwa [div_self htotal.ne']
  have hn : n ≠ 0 := by
    rintro rfl
    exact lt_irrefl _ htotal
  have hex : ∃ x, r < (∑ j ∈ range (x + 1), w j) / ∑ j ∈ range n, w j :=
    ⟨n - 1, by rwa [Nat.sub_add_cancel (Nat.pos_of_ne_zero hn)]⟩
  classical
  refine ⟨Nat.find hex, ?_, ?_, Nat.find_spec hex⟩
  · have hle : Nat.find hex ≤ n - 1 :=
      Nat.find_min' hex (by rwa [Nat.sub_add_cancel (Nat.pos_of_ne_zero hn)])
    omega
  · cases hfind : Nat.find hex with
    | zero => simpa using hlow
    | succ x => exact not_lt.1 (Nat.find_min hex (by omega))

/-- No draw falls on two entries. -/
theorem InInterval.unique (hw : ∀ j < n, 0 ≤ w j) (htotal : 0 < ∑ j ∈ range n, w j) {y : Nat}
    (hx : InInterval w n r x) (hy : InInterval w n r y) : x = y := by
  have hle {a b : Nat} (ha : InInterval w n r a) (hb : InInterval w n r b) : ¬ a < b := by
    intro hab
    have hsum : ∑ j ∈ range (a + 1), w j ≤ ∑ j ∈ range b, w j :=
      sum_range_le (fun j hj => hw j (hj.trans hb.entry)) hab
    have hmono := div_le_div_of_nonneg_right hsum htotal.le
    exact absurd (ha.below.trans_le (hmono.trans hb.above)) (lt_irrefl r)
  exact Nat.le_antisymm (not_lt.1 (hle hy hx)) (not_lt.1 (hle hx hy))

end Intervals

end VgEngine.Cumulative
