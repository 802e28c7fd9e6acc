import Mathlib.Algebra.Group.Nat.Defs

/-! Status codes and storage tiers shared by every component. -/
namespace VgEngine

inductive Status where
  | ok | invalid | io | format | range | nomem | unsupported | busy
deriving DecidableEq, Repr

inductive Tier where
  | storage | host | pinned | device
deriving DecidableEq, Repr

/-- `SIZE_MAX`, which is also `UINT64_MAX`, on the supported targets. -/
def sizeMax : Nat := 2 ^ 64 - 1

/-- Subtraction of 64-bit unsigned values. -/
def sub64 (a b : Nat) : Nat := (a + 2 ^ 64 - b) % 2 ^ 64

theorem sub64_of_le {a b : Nat} (hb : b ≤ a) (ha : a < 2 ^ 64) : sub64 a b = a - b := by
  unfold sub64
  omega

end VgEngine
