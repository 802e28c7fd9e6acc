import Mathlib.Data.List.Basic

/-! Heap blocks with identities that are never used again. -/
namespace VgEngine

/-- The live blocks with their contents; every block below `next` has been handed out. -/
structure Memory (α : Type*) where
  cells : Nat → Option α
  next : Nat

namespace Memory

variable {α : Type*}

def empty : Memory α := ⟨fun _ => none, 0⟩

/-- The new block is `m.next`. -/
def alloc (m : Memory α) (a : α) : Memory α :=
  ⟨fun b => if b = m.next then some a else m.cells b, m.next + 1⟩

def free (m : Memory α) (block : Nat) : Memory α :=
  { m with cells := fun b => if b = block then none else m.cells b }

def write (m : Memory α) (block : Nat) (a : α) : Memory α :=
  { m with cells := fun b => if b = block then some a else m.cells b }

@[simp] theorem alloc_next (m : Memory α) (a : α) : (m.alloc a).next = m.next + 1 := rfl

@[simp] theorem free_next (m : Memory α) (block : Nat) : (m.free block).next = m.next := rfl

theorem alloc_cells_self (m : Memory α) (a : α) : (m.alloc a).cells m.next = some a := if_pos rfl

theorem alloc_cells_of_ne {m : Memory α} {a : α} {b : Nat} (h : b ≠ m.next) :
    (m.alloc a).cells b = m.cells b := if_neg h

theorem free_cells_of_ne {m : Memory α} {block b : Nat} (h : b ≠ block) :
    (m.free block).cells b = m.cells b := if_neg h

@[simp] theorem write_next (m : Memory α) (block : Nat) (a : α) : (m.write block a).next = m.next :=
  rfl

theorem write_cells_of_ne {m : Memory α} {block b : Nat} {a : α} (h : b ≠ block) :
    (m.write block a).cells b = m.cells b := if_neg h

end Memory

end VgEngine
