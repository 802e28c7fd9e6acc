import Mathlib.Data.List.Nodup
import Mathlib.Logic.Function.Basic

/-! A queue of linked nodes: each node points to the next one, and the queue to its ends. -/
namespace VgEngine.Lib

/-- The links of all nodes, and the two ends of the queue. -/
structure LinkedQueue (ι : Type*) where
  next : ι → Option ι
  head : Option ι
  tail : Option ι

namespace LinkedQueue

variable {ι : Type*}

def empty : LinkedQueue ι := ⟨fun _ => none, none, none⟩

/-- A new node, which points nowhere yet, goes to the end. -/
def push [DecidableEq ι] (q : LinkedQueue ι) (t : ι) : LinkedQueue ι :=
  let next := Function.update q.next t none
  match q.tail with
  | some u => ⟨Function.update next u (some t), q.head, some t⟩
  | none => ⟨next, some t, some t⟩

/-- The node at the front leaves, if there is one. -/
def pop (q : LinkedQueue ι) : Option (ι × LinkedQueue ι) :=
  q.head.map fun t => (t, ⟨q.next, q.next t, if q.next t = none then none else q.tail⟩)

/-- The nodes of the queue, in order. -/
structure Holds (q : LinkedQueue ι) (xs : List ι) : Prop where
  head : q.head = xs.head?
  tail : q.tail = xs.getLast?
  next : ∀ i t, xs[i]? = some t → q.next t = xs[i + 1]?
  nodup : xs.Nodup

variable {q : LinkedQueue ι} {xs : List ι} {t : ι}

theorem holds_empty : Holds (empty : LinkedQueue ι) [] := ⟨rfl, rfl, by simp, List.nodup_nil⟩

theorem Holds.push [DecidableEq ι] (h : Holds q xs) (ht : t ∉ xs) : Holds (q.push t) (xs ++ [t]) := by
  have hnodup : (xs ++ [t]).Nodup := by
    rw [List.nodup_append]
    refine ⟨h.nodup, List.nodup_singleton t, ?_⟩
    intro a ha b hb heq
    rw [List.mem_singleton.1 hb] at heq
    exact ht (heq ▸ ha)
  unfold LinkedQueue.push
  dsimp only
  rw [h.tail]
  cases hlast : xs.getLast? with
  | none =>
    obtain rfl : xs = [] := List.getLast?_eq_none_iff.1 hlast
    refine ⟨rfl, rfl, ?_, hnodup⟩
    intro i a hi
    obtain ⟨rfl, rfl⟩ : i = 0 ∧ a = t := by
      cases i with
      | zero => exact ⟨rfl, (Option.some.inj hi).symm⟩
      | succ i => simp at hi
    simp
  | some u =>
    obtain ⟨ys, rfl⟩ := List.getLast?_eq_some_iff.1 hlast
    refine ⟨?_, by simp, ?_, hnodup⟩
    · rw [h.head]
      simp
    · intro i a hi
      dsimp only
      by_cases hau : a = u
      · -- the node that was the last one
        obtain rfl : i = ys.length := by
          subst hau
          have hu : (ys ++ [a] ++ [t])[ys.length]? = some a := by simp
          have hlt := (List.getElem?_eq_some_iff.1 hi).1
          exact (List.getElem?_inj hlt hnodup).1 (hi.trans hu.symm)
        rw [hau, Function.update_self]
        simp
      · rw [Function.update_of_ne hau]
        by_cases hat : a = t
        · obtain rfl : i = (ys ++ [u]).length := by
            subst hat
            have hlast' : (ys ++ [u] ++ [a])[(ys ++ [u]).length]? = some a := by simp
            have hlt := (List.getElem?_eq_some_iff.1 hi).1
            exact (List.getElem?_inj hlt hnodup).1 (hi.trans hlast'.symm)
          rw [hat, Function.update_self, List.getElem?_eq_none (by simp)]
        · rw [Function.update_of_ne hat]
          have hlt : i < (ys ++ [u]).length := by
            by_contra hge
            rw [List.getElem?_append_right (by omega)] at hi
            exact hat (List.mem_singleton.1 (List.mem_of_getElem? hi))
          rw [List.getElem?_append_left hlt] at hi
          rw [h.next i a hi]
          have hlt' : i + 1 < (ys ++ [u]).length := by
            by_contra hge
            have hi' : i = ys.length := by
              simp only [List.length_append, List.length_singleton] at hlt hge
              omega
            rw [hi'] at hi
            simp only [List.getElem?_concat_length, Option.some.injEq] at hi
            exact hau hi.symm
          rw [List.getElem?_append_left hlt']

theorem Holds.pop_nil (h : Holds q []) : q.pop = none := by
  unfold LinkedQueue.pop
  rw [h.head]
  rfl

theorem Holds.pop_cons (h : Holds q (t :: xs)) : ∃ q', q.pop = some (t, q') ∧ Holds q' xs := by
  have hnext : q.next t = xs.head? := by
    rw [h.next 0 t rfl, List.getElem?_cons_succ, List.head?_eq_getElem?]
  unfold LinkedQueue.pop
  rw [h.head]
  refine ⟨_, rfl, hnext, ?_, ?_, (List.nodup_cons.1 h.nodup).2⟩
  · dsimp only
    rw [hnext, h.tail]
    cases xs with
    | nil => rfl
    | cons x xs => rfl
  · intro i a hi
    exact h.next (i + 1) a hi

end LinkedQueue

end VgEngine.Lib
