import VgEngine.Lib.Memory
import Mathlib.Algebra.BigOperators.Group.Finset.Basic
import Mathlib.Algebra.Order.BigOperators.Group.Finset

/-! What the live blocks of a memory weigh, and how many slots of a row hold a block. -/
namespace VgEngine

namespace Memory

variable {α : Type*} (weight : α → Nat) {m : Memory α} {block : Nat} {a : α}

/-- The weight of all live blocks. -/
def weigh (m : Memory α) : Nat := ∑ b ∈ Finset.range m.next, (m.cells b).elim 0 weight

/-- No block was handed out that is not counted. -/
def Fresh (m : Memory α) : Prop := ∀ b, m.next ≤ b → m.cells b = none

theorem Fresh.lt (h : m.Fresh) (hcell : m.cells block = some a) : block < m.next := by
  by_contra hle
  rw [h block (Nat.le_of_not_lt hle)] at hcell
  cases hcell

theorem weigh_alloc (m : Memory α) (a : α) :
    (m.alloc a).weigh weight = m.weigh weight + weight a := by
  unfold weigh
  rw [alloc_next, Finset.sum_range_succ, alloc_cells_self, Option.elim_some]
  congr 1
  apply Finset.sum_congr rfl
  intro b hb
  rw [alloc_cells_of_ne (Finset.mem_range.1 hb).ne]

theorem weigh_free (hfresh : m.Fresh) (hcell : m.cells block = some a) :
    (m.free block).weigh weight + weight a = m.weigh weight := by
  have hmem : block ∈ Finset.range m.next := Finset.mem_range.2 (hfresh.lt hcell)
  have hself : (m.free block).cells block = none := if_pos rfl
  unfold weigh
  rw [free_next, ← Finset.sum_erase_add _ _ hmem, ← Finset.sum_erase_add _ _ hmem, hcell, hself,
    Option.elim_some, Option.elim_none, Nat.add_zero]
  congr 1
  apply Finset.sum_congr rfl
  intro b hb
  rw [free_cells_of_ne (Finset.ne_of_mem_erase hb)]

end Memory

/-- How many of the first `n` slots hold the block. -/
def slotHolders (slots : Nat → Option Nat) (n block : Nat) : Nat :=
  ∑ s ∈ Finset.range n, if slots s = some block then 1 else 0

section Slots

variable {slots slots' : Nat → Option Nat} {n n' s block : Nat}

theorem slotHolders_eq_zero (h : ∀ s, slots s ≠ some block) : slotHolders slots n block = 0 :=
  Finset.sum_eq_zero fun s _ => if_neg (h s)

/-- Slots that are empty hold nothing. -/
theorem slotHolders_mono (hempty : ∀ s, n ≤ s → slots s = none) (hle : n ≤ n') :
    slotHolders slots n' block = slotHolders slots n block := by
  symm
  apply Finset.sum_subset (Finset.range_subset_range.2 hle)
  intro s _ hs
  rw [Finset.mem_range, Nat.not_lt] at hs
  rw [hempty s hs]
  exact if_neg (by simp)

/-- One slot is filled or cleared. -/
theorem slotHolders_update (hs : s < n) (hother : ∀ s', s' ≠ s → slots' s' = slots s') :
    slotHolders slots' n block + (if slots s = some block then 1 else 0) =
      slotHolders slots n block + if slots' s = some block then 1 else 0 := by
  have hmem : s ∈ Finset.range n := Finset.mem_range.2 hs
  have hrest : ∑ s' ∈ (Finset.range n).erase s, (if slots' s' = some block then 1 else 0) =
      ∑ s' ∈ (Finset.range n).erase s, if slots s' = some block then 1 else 0 := by
    apply Finset.sum_congr rfl
    intro s' hs'
    rw [hother s' (Finset.ne_of_mem_erase hs')]
  unfold slotHolders
  rw [← Finset.sum_erase_add _ _ hmem, ← Finset.sum_erase_add (Finset.range n) _ hmem, hrest]
  omega

theorem slotHolders_pos (hs : s < n) (hslot : slots s = some block) :
    0 < slotHolders slots n block := by
  apply Finset.sum_pos'
  · exact fun _ _ => Nat.zero_le _
  · exact ⟨s, Finset.mem_range.2 hs, by rw [if_pos hslot]; exact Nat.one_pos⟩

theorem exists_of_slotHolders_pos (h : 0 < slotHolders slots n block) :
    ∃ s < n, slots s = some block := by
  by_contra hnone
  push Not at hnone
  have hzero : slotHolders slots n block = 0 := by
    apply Finset.sum_eq_zero
    intro s hs
    exact if_neg (hnone s (Finset.mem_range.1 hs))
  omega

end Slots

end VgEngine
