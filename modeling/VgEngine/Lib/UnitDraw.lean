import Mathlib

/-! Ideal uniform draws from the unit interval, and what is chosen with them: the entry of
a list of weights that a draw falls on, and the outcome of a proposal that a second draw
accepts or a third one replaces. -/
namespace VgEngine.UnitDraw
open MeasureTheory Set Finset

/-- A uniform draw from `[0, 1)`. -/
noncomputable def unitDraw : Measure ℝ := volume.restrict (Set.Ico 0 1)

instance : IsProbabilityMeasure unitDraw := by
  constructor
  rw [unitDraw, Measure.restrict_apply_univ, Real.volume_Ico]
  simp

/-- Almost every draw is neither zero nor one. -/
theorem unitDraw_ae : ∀ᵐ u ∂unitDraw, 0 < u ∧ u < 1 := by
  have hin : ∀ᵐ u ∂unitDraw, u ∈ Set.Ico (0 : ℝ) 1 := ae_restrict_mem measurableSet_Ico
  have hne : ∀ᵐ u ∂unitDraw, u ≠ 0 := by
    apply ae_restrict_of_ae
    exact compl_mem_ae_iff.2 (measure_singleton 0)
  filter_upwards [hin, hne] with u hu h0
  exact ⟨lt_of_le_of_ne hu.1 (Ne.symm h0), hu.2⟩

theorem unitDraw_Ioc {a b : ℝ} (ha : 0 ≤ a) (hab : a ≤ b) (hb : b ≤ 1) :
    unitDraw.real (Set.Ioc a b) = b - a := by
  have hsame : (Set.Ioc a b ∩ Set.Ico 0 1 : Set ℝ) =ᵐ[volume] Set.Ioc a b := by
    have hne : ∀ᵐ u ∂(volume : Measure ℝ), u ≠ 1 := compl_mem_ae_iff.2 (measure_singleton 1)
    filter_upwards [hne] with u hu
    apply propext
    constructor
    · exact fun h => h.1
    · intro h
      exact ⟨h, le_trans ha h.1.le, lt_of_le_of_ne (le_trans h.2 hb) hu⟩
  rw [unitDraw, measureReal_restrict_apply measurableSet_Ioc, measureReal_congr hsame,
    Measure.real, Real.volume_Ioc, ENNReal.toReal_ofReal (by linarith)]

theorem unitDraw_Iic {a : ℝ} (ha : 0 ≤ a) (ha' : a ≤ 1) : unitDraw.real (Set.Iic a) = a := by
  have hsame : (Set.Iic a : Set ℝ) =ᵐ[unitDraw] Set.Ioc 0 a := by
    filter_upwards [unitDraw_ae] with u hu
    apply propext
    constructor
    · exact fun h => ⟨hu.1, h⟩
    · exact fun h => h.2
  rw [measureReal_congr hsame, unitDraw_Ioc (le_refl 0) ha ha', sub_zero]

theorem unitDraw_Ioi {a : ℝ} (ha : 0 ≤ a) (ha' : a ≤ 1) : unitDraw.real (Set.Ioi a) = 1 - a := by
  rw [← Set.compl_Iic, probReal_compl_eq_one_sub measurableSet_Iic, unitDraw_Iic ha ha']

section Slots

variable {w : ℕ → ℝ} {n x : ℕ} {total : ℝ}

/-- The draws that fall on entry `x` of the weights `w`, whose sum is `total`. -/
def slot (w : ℕ → ℝ) (total : ℝ) (x : ℕ) : Set ℝ :=
  Set.Ioc ((∑ i ∈ range x, w i) / total) ((∑ i ∈ range (x + 1), w i) / total)

theorem measurableSet_slot : MeasurableSet (slot w total x) := measurableSet_Ioc

theorem unitDraw_slot (hw : ∀ i < n, 0 ≤ w i) (htotal : ∑ i ∈ range n, w i = total)
    (hpos : 0 < total) (hx : x < n) : unitDraw.real (slot w total x) = w x / total := by
  have hlow : 0 ≤ ∑ i ∈ range x, w i :=
    sum_nonneg fun i hi => hw i (lt_trans (mem_range.1 hi) hx)
  have hhigh : ∑ i ∈ range (x + 1), w i ≤ total := by
    rw [← htotal]
    apply sum_le_sum_of_subset_of_nonneg (range_mono hx)
    exact fun i hi _ => hw i (mem_range.1 hi)
  have hstep : ∑ i ∈ range x, w i ≤ ∑ i ∈ range (x + 1), w i := by
    rw [sum_range_succ]
    linarith [hw x hx]
  unfold slot
  rw [unitDraw_Ioc (div_nonneg hlow hpos.le) (div_le_div_of_nonneg_right hstep hpos.le)
    (div_le_one_of_le₀ hhigh hpos.le), ← sub_div, sum_range_succ, add_sub_cancel_left]

/-- No draw falls on two entries. -/
theorem slot_disjoint (hw : ∀ i < n, 0 ≤ w i) (hpos : 0 < total) {y : ℕ} (hx : x < n)
    (hy : y < n) (hne : x ≠ y) : Disjoint (slot w total x) (slot w total y) := by
  have hmono : ∀ {a b : ℕ}, a < b → b < n →
      (∑ i ∈ range (a + 1), w i) / total ≤ (∑ i ∈ range b, w i) / total := by
    intro a b hab hb
    apply div_le_div_of_nonneg_right _ hpos.le
    apply sum_le_sum_of_subset_of_nonneg (range_mono hab)
    exact fun i hi _ => hw i (lt_trans (mem_range.1 hi) hb)
  rw [Set.disjoint_left]
  intro u hux huy
  rcases Nat.lt_or_gt_of_ne hne with hlt | hgt
  · exact absurd (lt_of_le_of_lt (hmono hlt hy) huy.1) (not_lt.2 hux.2)
  · exact absurd (lt_of_le_of_lt (hmono hgt hx) hux.1) (not_lt.2 huy.2)

end Slots

/-- The draws of three that end at `x`: a proposal of `x` that the second draw accepts, or
any rejected proposal whose replacement, drawn in `F`, is `x`. -/
def accepted (q : ℕ → ℝ) (accept : ℕ → ℝ) (n x : ℕ) (F : Set ℝ) : Set (ℝ × ℝ × ℝ) :=
  slot q 1 x ×ˢ (Set.Iic (accept x) ×ˢ Set.univ) ∪
    ⋃ y ∈ range n, slot q 1 y ×ˢ (Set.Ioi (accept y) ×ˢ F)

variable {q accept : ℕ → ℝ} {n x : ℕ} {F : Set ℝ}

theorem unitDraw_accepted (hq : ∀ i < n, 0 ≤ q i) (hsum : ∑ i ∈ range n, q i = 1)
    (haccept : ∀ i, 0 ≤ accept i ∧ accept i ≤ 1) (hF : MeasurableSet F) (hx : x < n) :
    (unitDraw.prod (unitDraw.prod unitDraw)).real (accepted q accept n x F) =
      q x * accept x + (∑ y ∈ range n, q y * (1 - accept y)) * unitDraw.real F := by
  have hslot : ∀ y < n, unitDraw.real (slot q 1 y) = q y := by
    intro y hy
    rw [unitDraw_slot hq hsum one_pos hy, div_one]
  have hmeas : ∀ y, MeasurableSet (slot q 1 y ×ˢ (Set.Ioi (accept y) ×ˢ F)) := fun y =>
    measurableSet_slot.prod (measurableSet_Ioi.prod hF)
  have hdisjoint : Disjoint (slot q 1 x ×ˢ (Set.Iic (accept x) ×ˢ (Set.univ : Set ℝ)))
      (⋃ y ∈ range n, slot q 1 y ×ˢ (Set.Ioi (accept y) ×ˢ F)) := by
    rw [Set.disjoint_left]
    rintro ⟨a, b, c⟩ ⟨ha, hb, -⟩ hmem
    simp only [Set.mem_iUnion] at hmem
    obtain ⟨y, hy, ha', hb', -⟩ := hmem
    by_cases hxy : x = y
    · rw [← hxy] at hb'
      exact absurd (Set.mem_Iic.1 hb) (not_le.2 (Set.mem_Ioi.1 hb'))
    · exact Set.disjoint_left.1 (slot_disjoint hq one_pos hx (mem_range.1 hy) hxy) ha ha'
  have hpairwise : (Finset.range n : Set ℕ).PairwiseDisjoint
      fun y => slot q 1 y ×ˢ (Set.Ioi (accept y) ×ˢ F) := by
    intro y hy z hz hne
    apply Set.Disjoint.set_prod_left
    exact slot_disjoint hq one_pos (mem_range.1 hy) (mem_range.1 hz) hne
  rw [accepted, measureReal_union hdisjoint (Finset.measurableSet_biUnion _ fun y _ => hmeas y)
    (measure_ne_top _ _) (measure_ne_top _ _), measureReal_biUnion_finset hpairwise
    (fun y _ => hmeas y) fun _ _ => measure_ne_top _ _, sum_mul]
  congr 1
  · rw [measureReal_prod_prod, measureReal_prod_prod, hslot x hx,
      unitDraw_Iic (haccept x).1 (haccept x).2, probReal_univ, mul_one]
  · apply sum_congr rfl
    intro y hy
    rw [measureReal_prod_prod, measureReal_prod_prod, hslot y (mem_range.1 hy),
      unitDraw_Ioi (haccept y).1 (haccept y).2, mul_assoc]

/-- What holds of almost every draw holds of almost every three. -/
theorem unitDraw_ae_three : ∀ᵐ t ∂unitDraw.prod (unitDraw.prod unitDraw),
    (0 < t.1 ∧ t.1 < 1) ∧ 0 < t.2.2 ∧ t.2.2 < 1 := by
  have hfirst : ∀ᵐ t ∂unitDraw.prod (unitDraw.prod unitDraw), 0 < t.1 ∧ t.1 < 1 :=
    Measure.quasiMeasurePreserving_fst.ae unitDraw_ae
  have hlast : ∀ᵐ t ∂unitDraw.prod unitDraw, 0 < t.2 ∧ t.2 < 1 :=
    Measure.quasiMeasurePreserving_snd.ae unitDraw_ae
  filter_upwards [hfirst, Measure.quasiMeasurePreserving_snd.ae hlast] with t h1 h2
  exact ⟨h1, h2⟩

end VgEngine.UnitDraw
