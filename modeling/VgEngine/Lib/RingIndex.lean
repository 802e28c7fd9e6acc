import Mathlib.Data.List.Nodup
import Mathlib.Data.Nat.ModEq

/-! Rings of numbered objects that are taken one after the other, over and over. -/
namespace VgEngine

/-- Where a ring of `size` objects stands: there is always a next one. -/
structure RingIndex (size : Nat) where
  next : Nat
  lt : next < size

namespace RingIndex

variable {size : Nat}

def advance (r : RingIndex size) : RingIndex size :=
  ⟨(r.next + 1) % size, Nat.mod_lt _ (Nat.zero_lt_of_lt r.lt)⟩

/-- The next `n` objects, and the ring after they were taken. -/
def take (r : RingIndex size) (n : Nat) : (Fin n → Nat) × RingIndex size :=
  (fun i => (advance^[i] r).next, advance^[n] r)

/-- The object that is taken after `k` others. -/
def nth (r : RingIndex size) (k : Nat) : Nat := (r.next + k) % size

theorem iterate_next (r : RingIndex size) (k : Nat) : (advance^[k] r).next = r.nth k := by
  induction k with
  | zero => exact (Nat.mod_eq_of_lt r.lt).symm
  | succ k ih =>
    have hnext : (advance^[k + 1] r).next = ((advance^[k] r).next + 1) % size := by
      rw [Function.iterate_succ_apply', advance]
    rw [hnext, ih, nth, Nat.mod_add_mod, Nat.add_assoc, nth]

theorem nth_iterate (r : RingIndex size) (j k : Nat) : (advance^[j] r).nth k = r.nth (j + k) := by
  rw [nth, iterate_next, nth, nth, Nat.mod_add_mod, Nat.add_assoc]

/-- What is taken from a ring is distinct exactly as long as it does not come round. -/
theorem nodup_nth (r : RingIndex size) (n : Nat) : ((List.range n).map r.nth).Nodup ↔ n ≤ size := by
  constructor
  · intro hnodup
    by_contra hlt
    have hround : r.nth 0 = r.nth size := by
      unfold nth
      rw [Nat.add_zero, Nat.add_mod_right]
    have hzero := List.inj_on_of_nodup_map hnodup (List.mem_range.2 (by omega))
      (List.mem_range.2 (Nat.lt_of_not_le hlt)) hround
    have hsize := r.lt
    omega
  · intro hle
    apply List.Nodup.map_on _ List.nodup_range
    intro i hi j hj heq
    have hmod : i ≡ j [MOD size] := Nat.ModEq.add_left_cancel' r.next heq
    exact hmod.eq_of_lt_of_lt (Nat.lt_of_lt_of_le (List.mem_range.1 hi) hle)
      (Nat.lt_of_lt_of_le (List.mem_range.1 hj) hle)

end RingIndex

end VgEngine
