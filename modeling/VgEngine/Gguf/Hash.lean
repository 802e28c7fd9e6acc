import VgEngine.Gguf.Reader

/-! The open-addressing name tables of `gguf.c`. A slot is empty or holds a key
and the index it stands for; a lookup that runs off the table yields `none`. -/
namespace VgEngine.Gguf

structure HashTable where
  slots : List (Option (List UInt8 × Nat))
deriving DecidableEq, Repr

def HashTable.cap (t : HashTable) : Nat := t.slots.length

/-- A table as `calloc` leaves it. -/
def HashTable.empty (cap : Nat) : HashTable := ⟨List.replicate cap none⟩

def HashTable.occupied (t : HashTable) : Nat := t.slots.countP Option.isSome

def fnv1a (s : List UInt8) : Nat :=
  s.foldl (fun h b => (h ^^^ b.toNat) * 16777619 % 2 ^ 32) 2166136261

def hashProbe (t : HashTable) (key : List UInt8) : Nat → Nat → Option Nat
  | 0, _ => none
  | probes + 1, i =>
    match t.slots[i]? with
    | some (some (k, _)) => if k = key then some i else hashProbe t key probes ((i + 1) % t.cap)
    | _ => some i

/-- The slot that holds the key, or the empty slot where the search stopped. -/
def hashFind (t : HashTable) (key : List UInt8) : Option Nat :=
  if t.cap = 0 then none else hashProbe t key t.cap (fnv1a key % t.cap)

/-- The index stored for the key. -/
def HashTable.lookup (t : HashTable) (key : List UInt8) : Option Nat := do
  let i ← hashFind t key
  let slot ← t.slots[i]?
  let (_, index) ← slot
  some index

def HashTable.put (t : HashTable) (i : Nat) (key : List UInt8) (index : Nat) : HashTable :=
  ⟨t.slots.set i (some (key, index))⟩

/-- Rehash every occupied slot into a fresh table. -/
def HashTable.rehash (t : HashTable) (cap : Nat) : HashTable :=
  t.slots.foldl (fun fresh slot =>
    match slot with
    | none => fresh
    | some (key, index) =>
      match hashFind fresh key with
      | none => fresh
      | some i => fresh.put i key index) (HashTable.empty cap)

/-- The growth part of `hash_insert`; `none` when its allocation fails. -/
def hashGrow (env : Libc) (t : HashTable) (c : Cursor) : Option (HashTable × Cursor) :=
  if t.occupied < t.cap * 3 / 4 then some (t, c)
  else (malloc env c).map fun c => (t.rehash (t.cap * 2), c)

/-- `hash_insert`. A key already present keeps its first index. -/
def hashInsert (env : Libc) (t : HashTable) (key : List UInt8) (index : Nat) (c : Cursor) :
    HashTable × Cursor :=
  match (if t.cap = 0 then (malloc env c).map fun c => (HashTable.empty 64, c) else some (t, c)) with
  | none => (t, c)
  | some (t, c) =>
    match hashGrow env t c with
    | none => (t, c)
    | some (t, c) =>
      match hashFind t key with
      | none => (t, c)
      | some i => if (t.slots[i]?.join).isSome then (t, c) else (t.put i key index, c)

/-- Insert the names in file order, numbering them from `index`. -/
def hashInsertAll (env : Libc) : List (List UInt8) → Nat → HashTable → Cursor → HashTable × Cursor
  | [], _, t, c => (t, c)
  | key :: keys, index, t, c =>
    let (t, c) := hashInsert env t key index c
    hashInsertAll env keys (index + 1) t c

end VgEngine.Gguf
