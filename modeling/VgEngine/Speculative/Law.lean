import VgEngine.Lib.UnitDraw
import VgEngine.Speculative.Step
import Mathlib.Algebra.BigOperators.Intervals
import Mathlib.Tactic.FieldSimp

/-! The law of the token that one verified position writes: a proposal from the draft,
accepted or replaced, has the target's distribution. -/
namespace VgEngine.Speculative
open Finset UnitDraw MeasureTheory

variable {n x : ℕ} {w p q : ℕ → ℝ}

/-- Above what is accumulated, the scan finds the entry whose step of the cumulative sum
holds `r`. -/
theorem scan_eq_some_iff {take : ℕ → Bool} {r acc : ℝ} {i : ℕ} (hw : ∀ j < i + n, 0 ≤ w j)
    (htake : ∀ j, take j = false → w j = 0) (hacc : acc < r) :
    scan take w r n i acc = some x ↔ i ≤ x ∧ x < i + n ∧
      acc + ∑ j ∈ Ico i x, w j < r ∧ r ≤ acc + ∑ j ∈ Ico i (x + 1), w j := by
  induction n generalizing i acc with
  | zero =>
    rw [scan]
    constructor
    · simp
    · rintro ⟨hlo, hhi, -⟩
      omega
  | succ n ih =>
    have hrest : ∀ acc' < r, acc' = acc + w i → (scan take w r n (i + 1) acc' = some x ↔
        i ≤ x ∧ x < i + (n + 1) ∧ acc + ∑ j ∈ Ico i x, w j < r ∧
          r ≤ acc + ∑ j ∈ Ico i (x + 1), w j) := by
      intro acc' hlt heq
      rw [ih (fun j hj => hw j (by omega)) hlt]
      constructor
      · rintro ⟨hlo, hhi, hbelow, hreach⟩
        rw [sum_eq_sum_Ico_succ_bot (show i < x by omega),
          sum_eq_sum_Ico_succ_bot (show i < x + 1 by omega)]
        exact ⟨by omega, by omega, by linarith, by linarith⟩
      · rintro ⟨hlo, hhi, hbelow, hreach⟩
        rcases Nat.eq_or_lt_of_le hlo with rfl | hlt'
        · rw [Nat.Ico_succ_singleton, sum_singleton] at hreach
          linarith
        · rw [sum_eq_sum_Ico_succ_bot hlt'] at hbelow
          rw [sum_eq_sum_Ico_succ_bot (show i < x + 1 by omega)] at hreach
          exact ⟨by omega, by omega, by linarith, by linarith⟩
    rw [scan]
    by_cases hi : take i = true
    · rw [if_pos hi]
      by_cases hr : r ≤ acc + w i
      · rw [if_pos hr]
        constructor
        · intro h
          obtain rfl := Option.some.inj h
          rw [Ico_self, sum_empty, Nat.Ico_succ_singleton, sum_singleton]
          exact ⟨Nat.le_refl i, by omega, by linarith, hr⟩
        · rintro ⟨hlo, hhi, hbelow, -⟩
          rcases Nat.eq_or_lt_of_le hlo with rfl | hlt'
          · rfl
          · have hnonneg : 0 ≤ ∑ j ∈ Ico (i + 1) x, w j := by
              apply sum_nonneg
              intro j hj
              have hj' := mem_Ico.1 hj
              exact hw j (by omega)
            rw [sum_eq_sum_Ico_succ_bot hlt'] at hbelow
            linarith
      · rw [if_neg hr]
        exact hrest _ (not_le.1 hr) rfl
    · rw [if_neg hi]
      have hzero := htake i (by simpa using hi)
      exact hrest acc hacc (by rw [hzero, add_zero])

/-- A draw in the open unit interval, scaled by the total, is found in its slot. -/
theorem scan_slot {take : ℕ → Bool} {total u : ℝ} (hw : ∀ i < n, 0 ≤ w i)
    (htake : ∀ j, take j = false → w j = 0) (hpos : 0 < total) (hu : 0 < u) (hx : x < n) :
    scan take w (u * total) n 0 0 = some x ↔ u ∈ slot w total x := by
  rw [scan_eq_some_iff (by simpa using hw) htake (mul_pos hu hpos)]
  unfold slot
  rw [Set.mem_Ioc, div_lt_iff₀ hpos, le_div_iff₀ hpos]
  simp only [← range_eq_Ico, zero_add]
  constructor
  · exact fun h => h.2.2
  · exact fun h => ⟨Nat.zero_le x, hx, h⟩

/-- Some entry is found for every draw that the sum of the weights reaches. -/
theorem scan_isSome {take : ℕ → Bool} {r acc : ℝ} {i : ℕ}
    (htake : ∀ j, take j = false → w j = 0) (hacc : acc < r)
    (hreach : r ≤ acc + ∑ j ∈ Ico i (i + n), w j) :
    ∃ y, scan take w r n i acc = some y := by
  induction n generalizing i acc with
  | zero =>
    rw [Nat.add_zero, Ico_self, sum_empty] at hreach
    linarith
  | succ n ih =>
    rw [sum_eq_sum_Ico_succ_bot (by omega), show i + (n + 1) = i + 1 + n by omega] at hreach
    rw [scan]
    by_cases hi : take i = true
    · rw [if_pos hi]
      by_cases hr : r ≤ acc + w i
      · rw [if_pos hr]
        exact ⟨i, rfl⟩
      · rw [if_neg hr]
        exact ih (not_le.1 hr) (by linarith)
    · rw [if_neg hi]
      have hzero := htake i (by simpa using hi)
      exact ih hacc (by linarith)

/-- The scan is only about the entries taken. -/
theorem scan_congr {take : ℕ → Bool} {w' : ℕ → ℝ} (h : ∀ i, take i = true → w i = w' i)
    (r acc : ℝ) (i : ℕ) : scan take w r n i acc = scan take w' r n i acc := by
  induction n generalizing i acc with
  | zero => rfl
  | succ n ih =>
    rw [scan, scan]
    by_cases hi : take i = true
    · rw [if_pos hi, if_pos hi, h i hi, ih]
    · rw [if_neg hi, if_neg hi, ih]

section Total

variable {take : ℕ → Bool} {total u : ℝ}

theorem exists_scan (hw : ∀ i < n, 0 ≤ w i) (htake : ∀ j, take j = false → w j = 0)
    (hsum : ∑ i ∈ range n, w i = total) (hpos : 0 < total) (hu : 0 < u ∧ u < 1) :
    ∃ y < n, scan take w (u * total) n 0 0 = some y := by
  obtain ⟨y, hy⟩ := scan_isSome (n := n) (i := 0) htake (mul_pos hu.1 hpos) (by
    rw [Nat.zero_add, ← range_eq_Ico, hsum, zero_add]
    exact mul_le_of_le_one_left hpos.le hu.2.le)
  refine ⟨y, ?_, hy⟩
  rw [scan_eq_some_iff (by simpa using hw) htake (mul_pos hu.1 hpos)] at hy
  omega

/-- The entry drawn, whatever is given for a scan that ends without any. -/
theorem scan_getD (hw : ∀ i < n, 0 ≤ w i) (htake : ∀ j, take j = false → w j = 0)
    (hsum : ∑ i ∈ range n, w i = total) (hpos : 0 < total) (hu : 0 < u ∧ u < 1) (other : ℕ)
    (hx : x < n) : (scan take w (u * total) n 0 0).getD other = x ↔ u ∈ slot w total x := by
  obtain ⟨y, -, hy⟩ := exists_scan hw htake hsum hpos hu
  rw [← scan_slot hw htake hpos hu.1 hx, hy, Option.getD_some, Option.some_inj]

end Total

/-- A probability distribution over the first `n` tokens. -/
structure IsDist (p : ℕ → ℝ) (n : ℕ) : Prop where
  nonneg : ∀ i, 0 ≤ p i
  sum : ∑ i ∈ range n, p i = 1

/-- The probability with which a proposal is accepted. -/
noncomputable def acceptP (p q : ℕ → ℝ) (y : ℕ) : ℝ := if 0 < q y then min 1 (p y / q y) else 1

/-- The token written for a verified position, from its three draws. -/
noncomputable def outcome (p q : ℕ → ℝ) (n : ℕ) (t : ℝ × ℝ × ℝ) : ℕ :=
  let y := (sampleFrom (fun u : ℝ => (u, u)) q n t.1).1
  if t.2.1 ≤ acceptP p q y then y else (sampleResidual (fun u : ℝ => (u, u)) q p n t.2.2).1

theorem acceptP_mem (hp : IsDist p n) (y : ℕ) : 0 ≤ acceptP p q y ∧ acceptP p q y ≤ 1 := by
  unfold acceptP
  split
  · rename_i hq
    exact ⟨le_min zero_le_one (div_nonneg (hp.nonneg y) hq.le), min_le_left _ _⟩
  · exact ⟨zero_le_one, le_refl 1⟩

/-- What is proposed and accepted is the smaller of the two probabilities. -/
theorem mul_acceptP (hp : IsDist p n) (hq : IsDist q n) (y : ℕ) :
    q y * acceptP p q y = min (q y) (p y) := by
  unfold acceptP
  split
  · rename_i hpos
    rw [mul_min_of_nonneg _ _ hpos.le, mul_one, mul_div_cancel₀ _ hpos.ne']
  · rename_i hzero
    have heq : q y = 0 := le_antisymm (not_lt.1 hzero) (hq.nonneg y)
    rw [heq, zero_mul, min_eq_left (hp.nonneg y)]

/-- The residual `max(0, target - draft)`. -/
noncomputable def residual (p q : ℕ → ℝ) (i : ℕ) : ℝ := if 0 < p i - q i then p i - q i else 0

theorem residual_nonneg (i : ℕ) : 0 ≤ residual p q i := by
  unfold residual
  split
  · rename_i h
    exact h.le
  · exact le_refl 0

theorem residual_eq (i : ℕ) : residual p q i = p i - min (q i) (p i) := by
  unfold residual
  split
  · rename_i h
    rw [min_eq_left (by linarith)]
  · rename_i h
    rw [min_eq_right (by linarith), sub_self]

/-- What is rejected is the total of the residual. -/
theorem sum_rejected (hp : IsDist p n) (hq : IsDist q n) :
    ∑ y ∈ range n, q y * (1 - acceptP p q y) = ∑ y ∈ range n, residual p q y := by
  have hleft : ∀ y, q y * (1 - acceptP p q y) = q y - min (q y) (p y) := by
    intro y
    rw [mul_sub, mul_one, mul_acceptP hp hq]
  simp only [hleft, residual_eq, sum_sub_distrib, hp.sum, hq.sum]

/-- The draws for which the replacement of a rejected proposal is `x`. -/
noncomputable def replaced (p q : ℕ → ℝ) (n x : ℕ) : Set ℝ :=
  if 0 < ∑ i ∈ range n, residual p q i then
    slot (residual p q) (∑ i ∈ range n, residual p q i) x
  else slot p 1 x

theorem measurableSet_replaced : MeasurableSet (replaced p q n x) := by
  unfold replaced
  split
  · exact measurableSet_slot
  · exact measurableSet_slot

theorem sampleResidual_iff (hp : IsDist p n) {u : ℝ} (hu : 0 < u ∧ u < 1) (hx : x < n) :
    (sampleResidual (fun u : ℝ => (u, u)) q p n u).1 = x ↔ u ∈ replaced p q n x := by
  have hscan : ∀ r, scan (fun i => decide (0 < p i - q i)) (fun i => p i - q i) r n 0 0 =
      scan (fun i => decide (0 < p i - q i)) (residual p q) r n 0 0 := by
    intro r
    apply scan_congr
    intro i hi
    exact (if_pos (of_decide_eq_true hi)).symm
  unfold sampleResidual replaced
  dsimp only
  rw [show (∑ i ∈ range n, if 0 < p i - q i then p i - q i else 0) =
    ∑ i ∈ range n, residual p q i from rfl]
  split
  · rename_i hpos
    rw [hscan]
    exact scan_getD (fun i _ => residual_nonneg i)
      (fun j hj => if_neg (by simpa using hj)) rfl hpos hu 0 hx
  · rw [hp.sum, if_pos zero_lt_one]
    exact scan_getD (fun i _ => hp.nonneg i) (fun j hj => by simp at hj) hp.sum one_pos hu _ hx

theorem sampleFrom_iff (hq : IsDist q n) {u : ℝ} (hu : 0 < u ∧ u < 1) (hx : x < n) :
    (sampleFrom (fun u : ℝ => (u, u)) q n u).1 = x ↔ u ∈ slot q 1 x := by
  have hscan : (scan (fun _ => true) q (u * 1) n 0 0).getD (n - 1) = x ↔ u ∈ slot q 1 x :=
    scan_getD (fun i _ => hq.nonneg i) (fun j hj => by simp at hj) hq.sum one_pos hu (n - 1) hx
  rw [mul_one] at hscan
  exact hscan

theorem sampleFrom_lt (hq : IsDist q n) {u : ℝ} (hu : 0 < u ∧ u < 1) :
    (sampleFrom (fun u : ℝ => (u, u)) q n u).1 < n := by
  have hscan : ∃ y < n, scan (fun _ => true) q (u * 1) n 0 0 = some y :=
    exists_scan (fun i _ => hq.nonneg i) (fun j hj => by simp at hj) hq.sum one_pos hu
  obtain ⟨y, hlt, hy⟩ := hscan
  rw [mul_one] at hy
  unfold sampleFrom
  dsimp only
  rw [hy]
  exact hlt

theorem outcome_iff (hp : IsDist p n) (hq : IsDist q n) (hx : x < n) {t : ℝ × ℝ × ℝ}
    (ht : 0 < t.1 ∧ t.1 < 1) (ht' : 0 < t.2.2 ∧ t.2.2 < 1) :
    outcome p q n t = x ↔ t ∈ accepted q (acceptP p q) n x (replaced p q n x) := by
  have hlt := sampleFrom_lt hq ht
  have hslot := (sampleFrom_iff hq ht hlt).1 rfl
  unfold outcome accepted
  dsimp only
  generalize (sampleFrom (fun u : ℝ => (u, u)) q n t.1).1 = y at hlt hslot ⊢
  have hunique : ∀ z < n, t.1 ∈ slot q 1 z → z = y := by
    intro z hz hmem
    by_contra hne
    exact Set.disjoint_left.1
      (slot_disjoint (fun i _ => hq.nonneg i) one_pos hz hlt hne) hmem hslot
  constructor
  · intro h
    split at h
    · rename_i haccept
      rw [h] at hslot haccept
      exact Or.inl ⟨hslot, haccept, Set.mem_univ _⟩
    · rename_i hreject
      right
      simp only [Set.mem_iUnion]
      exact ⟨y, mem_range.2 hlt, hslot, not_le.1 hreject, (sampleResidual_iff hp ht' hx).1 h⟩
  · rintro (⟨hmem, haccept, -⟩ | hmem)
    · rw [← hunique x hx hmem]
      exact if_pos haccept
    · simp only [Set.mem_iUnion] at hmem
      obtain ⟨z, hz, hmem, hreject, hreplaced⟩ := hmem
      rw [hunique z (mem_range.1 hz) hmem] at hreject
      rw [if_neg (not_le.2 (Set.mem_Ioi.1 hreject))]
      exact (sampleResidual_iff hp ht' hx).2 hreplaced

/-- The law of rejection sampling: with the proposal drawn from `q`, the token written has
the distribution `p`. -/
theorem outcome_law (hp : IsDist p n) (hq : IsDist q n) (hx : x < n) :
    (unitDraw.prod (unitDraw.prod unitDraw)).real {t | outcome p q n t = x} = p x := by
  have hsame : {t | outcome p q n t = x} =ᵐ[unitDraw.prod (unitDraw.prod unitDraw)]
      accepted q (acceptP p q) n x (replaced p q n x) := by
    filter_upwards [unitDraw_ae_three] with t ht
    exact propext (outcome_iff hp hq hx ht.1 ht.2)
  have hnonneg : ∀ i ∈ range n, 0 ≤ residual p q i := fun i _ => residual_nonneg i
  have hreplaced : (∑ i ∈ range n, residual p q i) * unitDraw.real (replaced p q n x) =
      residual p q x := by
    unfold replaced
    split
    · rename_i hpos
      rw [unitDraw_slot (fun i _ => residual_nonneg i) rfl hpos hx, mul_div_cancel₀ _ hpos.ne']
    · rename_i hzero
      have heq := le_antisymm (not_lt.1 hzero) (sum_nonneg hnonneg)
      rw [heq, zero_mul]
      exact ((sum_eq_zero_iff_of_nonneg hnonneg).1 heq x (mem_range.2 hx)).symm
  rw [measureReal_congr hsame, unitDraw_accepted (fun i _ => hq.nonneg i) hq.sum
    (acceptP_mem hp) measurableSet_replaced hx, mul_acceptP hp hq, sum_rejected hp hq, hreplaced,
    residual_eq, add_sub_cancel]

end VgEngine.Speculative
