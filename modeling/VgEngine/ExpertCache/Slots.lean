import VgEngine.ExpertCache.Model
import Mathlib.Order.Interval.Finset.Nat

/-! The slots of the expert cache: each holds a slice of its tensor and what keeps it alive, each for
an expert of its own, each used at a time of its own. -/
namespace VgEngine.ExpertCache
open Gguf Model TensorSource

variable {file : Handle} {source source' : State} {heap heap' : Memory (List UInt8)}
  {dims : Kind → Nat × Nat} {clock : Nat} {slots slots' : List ExpertSlot} {s v : ExpertSlot}

/-- The bytes of an expert in a tensor. -/
def sliceOf (file : Handle) (t : GgufTensor) (expert bytes : Nat) : List UInt8 :=
  slice (payload file t) (expert * bytes) bytes

/-- The tensor of an expert, and the part of it that is the expert's. -/
structure IsExpert (file : Handle) (dims : Kind → Nat × Nat) (layer : Nat) (kind : Kind)
    (expert bytes ggmlType i : Nat) (t : GgufTensor) : Prop where
  found : findTensor file.index (Graph.expertName layer kind) = some (i, t)
  stacked : expert < Graph.stacked t
  stride : bytes = Decode.expertStride t (dims kind).1 (dims kind).2
  type : ggmlType = t.ggmlType
  inside : (expert + 1) * bytes ≤ t.nbytes

/-- What keeps the bytes of a slot alive: a lease, or a copy of its own. -/
def Backed (file : Handle) (source : State) (heap : Memory (List UInt8)) (s : ExpertSlot)
    (i : Nat) (t : GgufTensor) : Prop :=
  (∃ l, s.lease = some l ∧ s.owned = none ∧ Grants source i t l ∧
    s.data = .leased l.data (s.expert * s.bytes)) ∨
  (∃ b, s.lease = none ∧ s.owned = some b ∧ s.data = .own b ∧ b < heap.next ∧
    heap.cells b = some (sliceOf file t s.expert s.bytes))

structure SlotGood (file : Handle) (source : State) (heap : Memory (List UInt8))
    (dims : Kind → Nat × Nat) (s : ExpertSlot) : Prop where
  sized : s.outDim = (dims s.kind).1 ∧ s.inDim = (dims s.kind).2
  backed : ∃ i t, IsExpert file dims s.layer s.kind s.expert s.bytes s.ggmlType i t ∧
    Backed file source heap s i t

structure Slots (file : Handle) (source : State) (heap : Memory (List UInt8))
    (dims : Kind → Nat × Nat) (clock : Nat) (slots : List ExpertSlot) : Prop where
  good : ∀ s ∈ slots, SlotGood file source heap dims s
  unique : (slots.map ExpertSlot.key).Nodup
  owned : (slots.filterMap ExpertSlot.owned).Nodup
  stamps : (slots.map ExpertSlot.lastUse).Nodup
  clock : ∀ s ∈ slots, s.lastUse ≤ clock

theorem Slots.perm (h : Slots file source heap dims clock slots) (hperm : slots.Perm slots') :
    Slots file source heap dims clock slots' where
  good := fun s hs => h.good s (hperm.mem_iff.2 hs)
  unique := (hperm.map ExpertSlot.key).nodup_iff.1 h.unique
  owned := (hperm.filterMap ExpertSlot.owned).nodup_iff.1 h.owned
  stamps := (hperm.map ExpertSlot.lastUse).nodup_iff.1 h.stamps
  clock := fun s hs => h.clock s (hperm.mem_iff.2 hs)

/-- A grant stays while the source keeps the file and its mapping. -/
theorem grants_later {i : Nat} {t : GgufTensor} {l : Lease} (h : Grants source i t l)
    (hlater : Extends source source') : Grants source' i t l := by
  unfold Grants at h ⊢
  obtain ⟨htensor, hsize, hdata⟩ := h
  refine ⟨htensor, hsize, ?_⟩
  cases hl : l.data with
  | mapping o =>
    rw [hl] at hdata
    obtain ⟨hmapped, ho⟩ := hdata
    refine ⟨hlater.mapped hmapped, ?_⟩
    rw [hlater.index]
    exact ho
  | block b =>
    rw [hl] at hdata
    exact hdata

/-- Slots stay good while their copies are left alone. -/
theorem SlotGood.later (h : SlotGood file source heap dims s) (hlater : Extends source source')
    (hnext : heap.next ≤ heap'.next)
    (hheap : ∀ b, s.owned = some b → b < heap.next → heap'.cells b = heap.cells b) :
    SlotGood file source' heap' dims s := by
  obtain ⟨i, t, hexpert, hbacked⟩ := h.backed
  refine ⟨h.sized, i, t, hexpert, ?_⟩
  rcases hbacked with ⟨l, hlease, howned, hgrants, hdata⟩ | ⟨b, hlease, howned, hdata, hlt, hcell⟩
  · exact Or.inl ⟨l, hlease, howned, grants_later hgrants hlater, hdata⟩
  · refine Or.inr ⟨b, hlease, howned, hdata, Nat.lt_of_lt_of_le hlt hnext, ?_⟩
    rw [hheap b howned hlt, hcell]

theorem Slots.later (h : Slots file source heap dims clock slots) (hlater : Extends source source')
    (hnext : heap.next ≤ heap'.next)
    (hheap : ∀ s ∈ slots, ∀ b, s.owned = some b → b < heap.next → heap'.cells b = heap.cells b) :
    Slots file source' heap' dims clock slots :=
  ⟨fun s hs => (h.good s hs).later hlater hnext (hheap s hs), h.unique, h.owned, h.stamps, h.clock⟩

theorem Slots.tail (h : Slots file source heap dims clock (v :: slots)) :
    Slots file source heap dims clock slots where
  good := fun s hs => h.good s (List.mem_cons_of_mem v hs)
  unique := (List.nodup_cons.1 h.unique).2
  owned := by
    have howned := h.owned
    rw [List.filterMap_cons] at howned
    cases hv : v.owned with
    | none => rwa [hv] at howned
    | some b =>
      rw [hv] at howned
      exact (List.nodup_cons.1 howned).2
  stamps := (List.nodup_cons.1 h.stamps).2
  clock := fun s hs => h.clock s (List.mem_cons_of_mem v hs)

/-- The copies of other slots are other blocks. -/
theorem Slots.owned_ne (h : Slots file source heap dims clock (v :: slots)) {b : Nat}
    (hv : v.owned = some b) (hs : s ∈ slots) : s.owned ≠ some b := by
  have howned := h.owned
  rw [List.filterMap_cons, hv] at howned
  intro hsb
  exact (List.nodup_cons.1 howned).1 (List.mem_filterMap.2 ⟨s, hs, hsb⟩)

/-- A new slot, used last. -/
theorem Slots.cons (h : Slots file source heap dims clock slots)
    (hgood : SlotGood file source heap dims v) (hkey : ∀ s ∈ slots, s.key ≠ v.key)
    (howned : ∀ b, v.owned = some b → ∀ s ∈ slots, s.owned ≠ some b)
    (hstamp : v.lastUse = clock + 1) :
    Slots file source heap dims (clock + 1) (v :: slots) where
  good := by
    rw [List.forall_mem_cons]
    exact ⟨hgood, h.good⟩
  unique := by
    rw [List.map_cons, List.nodup_cons]
    refine ⟨?_, h.unique⟩
    rintro hmem
    obtain ⟨s, hs, heq⟩ := List.mem_map.1 hmem
    exact hkey s hs heq
  owned := by
    rw [List.filterMap_cons]
    cases hv : v.owned with
    | none => exact h.owned
    | some b =>
      refine List.nodup_cons.2 ⟨?_, h.owned⟩
      intro hmem
      obtain ⟨s, hs, hsb⟩ := List.mem_filterMap.1 hmem
      exact howned b hv s hs hsb
  stamps := by
    rw [List.map_cons, List.nodup_cons]
    refine ⟨?_, h.stamps⟩
    intro hmem
    obtain ⟨s, hs, heq⟩ := List.mem_map.1 hmem
    have hle := h.clock s hs
    omega
  clock := by
    rw [List.forall_mem_cons]
    exact ⟨hstamp.le, fun s hs => Nat.le_succ_of_le (h.clock s hs)⟩

/-- If a slot was used before the last `n` ticks of the clock, less than `n` are younger. -/
theorem Slots.length_le (h : Slots file source heap dims clock slots)
    (holdest : ∀ s ∈ slots, v.lastUse ≤ s.lastUse) {n : Nat} (hv : clock ≤ v.lastUse + n) :
    slots.length ≤ n + 1 := by
  have hsub : (slots.map ExpertSlot.lastUse).toFinset ⊆ Finset.Icc v.lastUse clock := by
    intro u hu
    obtain ⟨s, hs, rfl⟩ := List.mem_map.1 (List.mem_toFinset.1 hu)
    exact Finset.mem_Icc.2 ⟨holdest s hs, h.clock s hs⟩
  have hcard := Finset.card_le_card hsub
  rw [List.toFinset_card_of_nodup h.stamps, List.length_map, Nat.card_Icc] at hcard
  omega

section Oldest

theorem oldestFrom_spec {all : List ExpertSlot} {i best use : Nat}
    (hdrop : all.drop i = slots) (hbest : ∃ s, all[best]? = some s ∧ s.lastUse = use)
    (hleast : ∀ j s, j < i → all[j]? = some s → use ≤ s.lastUse) :
    ∃ s, all[Graph.oldestFrom i best use slots]? = some s ∧ ∀ s' ∈ all, s.lastUse ≤ s'.lastUse := by
  induction slots generalizing i best use with
  | nil =>
    obtain ⟨s, hs, rfl⟩ := hbest
    refine ⟨s, hs, fun s' hs' => ?_⟩
    obtain ⟨j, hj⟩ := List.mem_iff_getElem?.1 hs'
    refine hleast j s' ?_ hj
    have hlength := List.drop_eq_nil_iff.1 hdrop
    have hlt := (List.getElem?_eq_some_iff.1 hj).1
    omega
  | cons x slots ih =>
    have hx : all[i]? = some x := by
      have hhead := congrArg List.head? hdrop
      rwa [List.head?_drop, List.head?_cons] at hhead
    have hrest : all.drop (i + 1) = slots := by
      rw [← List.tail_drop, hdrop, List.tail_cons]
    unfold Graph.oldestFrom
    split_ifs with hless
    · refine ih hrest ⟨x, hx, rfl⟩ fun j s hj hs => ?_
      rcases Nat.lt_succ_iff_lt_or_eq.1 hj with hj | rfl
      · exact hless.le.trans (hleast j s hj hs)
      · rw [hx] at hs
        exact (congrArg ExpertSlot.lastUse (Option.some.inj hs)).le
    · refine ih hrest hbest fun j s hj hs => ?_
      rcases Nat.lt_succ_iff_lt_or_eq.1 hj with hj | rfl
      · exact hleast j s hj hs
      · rw [hx] at hs
        rw [← Option.some.inj hs]
        omega

/-- The slot that is replaced is the one used longest ago. -/
theorem oldest_spec (hne : slots ≠ []) : ∃ s, slots[Graph.oldest slots]? = some s ∧
    ∀ s' ∈ slots, s.lastUse ≤ s'.lastUse := by
  cases slots with
  | nil => exact absurd rfl hne
  | cons x slots =>
    have hdrop : (x :: slots).drop 1 = slots := rfl
    refine oldestFrom_spec hdrop ⟨x, rfl, rfl⟩ fun j s hj hs => ?_
    obtain rfl : j = 0 := by omega
    exact (congrArg ExpertSlot.lastUse (Option.some.inj hs)).le

end Oldest

end VgEngine.ExpertCache
