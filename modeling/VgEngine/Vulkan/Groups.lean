import VgEngine.Vulkan.MatvecQ8

/-! The end of the shaders that give a row to each group of 32 lanes: the sums of the lanes are
reduced, and the first lane stores the row. -/
namespace VgEngine.Vulkan
open VgEngine.Lib

section Lanes

theorem mem_lanes {i : Nat × Nat} : i ∈ lanes ↔ i.1 < 8 ∧ i.2 < 32 := by
  obtain ⟨grp, lane⟩ := i
  simp only [lanes, List.mem_map, List.mem_range, Prod.mk.injEq, Nat.shiftRight_eq_div_pow,
    show ∀ lid, lid &&& 31 = lid % 32 from fun lid => Nat.and_two_pow_sub_one_eq_mod lid 5]
  constructor
  · rintro ⟨lid, hlid, rfl, rfl⟩
    omega
  · rintro ⟨hgrp, hlane⟩
    exact ⟨grp * 32 + lane, by omega, by omega, by omega⟩

theorem nodup_lanes : lanes.Nodup := by
  apply List.Nodup.map_on ?_ List.nodup_range
  intro lid _ lid' _ heq
  have hmask (n : Nat) : n &&& 31 = n % 32 := Nat.and_two_pow_sub_one_eq_mod n 5
  rw [Nat.shiftRight_eq_div_pow, Nat.shiftRight_eq_div_pow, hmask, hmask] at heq
  obtain ⟨hgrp, hlane⟩ := Prod.mk.inj heq
  omega

/-- Every lane in the order of its number. -/
def inOrder : Schedule := ⟨lanes, fun _ => lanes, lanes, .refl _, fun _ => .refl _, .refl _⟩

end Lanes

section Groups

variable {F : Type*} [Zero F] [Add F]

/-- The stores of a workgroup into `y`, where `acc` is what each lane has added up. -/
def groupStores (outDim : Nat) (acc : Nat × Nat → F) (s : Schedule) (wg : Nat) (red : Nat × Nat → F) :
    List (Nat × F) :=
  let row := fun grp => (wg * 8 + grp) % 2 ^ 32
  let red := runPhase (fun i _ => acc i) s.first red
  let red := treeReduce s.reduce 5 red
  s.last.filterMap fun i => if i.2 = 0 ∧ row i.1 < outDim then some (row i.1, red (i.1, 0)) else none

end Groups

section Rows

variable {K : Type*} [AddCommMonoid K] {outDim n : Nat}

/-- The cell of the first lane of a group, after the reduction. -/
theorem reduced_eq (s : Schedule) (acc : Nat × Nat → K) (red : Nat × Nat → K) {grp : Nat}
    (hgrp : grp < 8) :
    treeReduce s.reduce 5 (runPhase (fun i _ => acc i) s.first red) (grp, 0) =
      ∑ l ∈ Finset.range 32, acc (grp, l) := by
  have horders : ∀ j < 5, (s.reduce j).Nodup ∧ ∀ l < 2 ^ 5, (grp, l) ∈ s.reduce j := fun j _ =>
    ⟨(s.reduce_perm j).nodup_iff.mpr nodup_lanes,
      fun l hl => (s.reduce_perm j).mem_iff.mpr (mem_lanes.mpr ⟨hgrp, hl⟩)⟩
  rw [treeReduce_eq 5 grp horders]
  refine Finset.sum_congr rfl fun l hl => ?_
  rw [runPhase_eq (raceFree_const acc) (s.first_perm.nodup_iff.mpr nodup_lanes),
    if_pos (s.first_perm.mem_iff.mpr (mem_lanes.mpr ⟨hgrp, Finset.mem_range.mp hl⟩))]

/-- A workgroup stores its rows, each with the sum over its lanes. -/
theorem mem_groupStores (acc : Nat × Nat → K) (s : Schedule) {wg : Nat} (red : Nat × Nat → K)
    (hwg : wg * 8 + 8 ≤ 2 ^ 32) {t : Nat × K} :
    t ∈ groupStores outDim acc s wg red ↔ wg * 8 ≤ t.1 ∧ t.1 < wg * 8 + 8 ∧ t.1 < outDim ∧
      t.2 = ∑ l ∈ Finset.range 32, acc (t.1 - wg * 8, l) := by
  have hrow : ∀ grp < 8, (wg * 8 + grp) % 2 ^ 32 = wg * 8 + grp := fun grp hgrp =>
    Nat.mod_eq_of_lt (by omega)
  simp only [groupStores, List.mem_filterMap]
  constructor
  · rintro ⟨i, hi, hstore⟩
    have hgrp : i.1 < 8 := (mem_lanes.mp (s.last_perm.mem_iff.mp hi)).1
    rw [hrow i.1 hgrp, reduced_eq s acc red hgrp] at hstore
    split_ifs at hstore with hin
    obtain rfl := Option.some.inj hstore
    refine ⟨by dsimp only; omega, by dsimp only; omega, hin.2, ?_⟩
    dsimp only
    rw [Nat.add_sub_cancel_left]
  · rintro ⟨hlo, hhi, hin, hval⟩
    have hgrp : t.1 - wg * 8 < 8 := by omega
    have ht : wg * 8 + (t.1 - wg * 8) = t.1 := by omega
    refine ⟨(t.1 - wg * 8, 0), s.last_perm.mem_iff.mpr (mem_lanes.mpr ⟨hgrp, show 0 < 32 by decide⟩), ?_⟩
    rw [if_pos ⟨rfl, by rw [hrow _ hgrp, ht]; exact hin⟩, reduced_eq s acc red hgrp, hrow _ hgrp, ht,
      ← hval]

/-- When each row is summed up by the lanes of its group, the workgroups together leave it in `y`,
whatever the order of their stores. -/
theorem storeAll_groups {R : Type*} {runs : List R} {wg : R → Nat} {acc : R → Nat × Nat → K}
    {schedule : R → Schedule} {red : R → Nat × Nat → K} {val : Nat → K} {stores : List (Nat × K)}
    (hgroups : outDim ≤ n * 8) (hsmall : n * 8 ≤ 2 ^ 32)
    (hruns : (runs.map wg).Perm (List.range n))
    (hstores : stores.Perm (runs.flatMap fun r =>
      groupStores outDim (acc r) (schedule r) (wg r) (red r)))
    (hval : ∀ r ∈ runs, ∀ row, wg r * 8 ≤ row → row < wg r * 8 + 8 → row < outDim →
      ∑ l ∈ Finset.range 32, acc r (row - wg r * 8, l) = val row)
    (y : Nat → K) {row : Nat} (hrow : row < outDim) : storeAll y stores row = val row := by
  have hlast : ∀ r ∈ runs, wg r < n := fun r hr =>
    List.mem_range.mp (hruns.mem_iff.mp (List.mem_map_of_mem hr))
  have hmem : ∀ t ∈ stores, t.1 = row → t.2 = val row := by
    rintro t ht rfl
    obtain ⟨r, hr, ht⟩ := List.mem_flatMap.mp (hstores.mem_iff.mp ht)
    have hwg := hlast r hr
    obtain ⟨hlo, hhi, hin, hsum⟩ := (mem_groupStores (acc r) _ _ (by omega)).mp ht
    rw [hsum, hval r hr t.1 hlo hhi hin]
  apply storeAll_of_stored hmem
  have hgroup : row / 8 ∈ runs.map wg := hruns.mem_iff.mpr (List.mem_range.mpr (by omega))
  obtain ⟨r, hr, hwg⟩ := List.mem_map.mp hgroup
  refine ⟨(row, val row), hstores.mem_iff.mpr (List.mem_flatMap.mpr ⟨r, hr, ?_⟩), rfl⟩
  have hlo : wg r * 8 ≤ row := by omega
  have hhi : row < wg r * 8 + 8 := by omega
  exact (mem_groupStores (acc r) _ _ (by omega)).mpr
    ⟨hlo, hhi, hrow, (hval r hr row hlo hhi hrow).symm⟩

end Rows

end VgEngine.Vulkan
