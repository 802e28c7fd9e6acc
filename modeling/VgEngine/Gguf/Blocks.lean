import VgEngine.Lib.Blocks
import VgEngine.Gguf.Index

/-! The parser once more, with the blocks that it allocates and frees, and `vg_gguf_close`. A failed
parse leaves the object, and the blocks that belong to it. -/
namespace VgEngine.Gguf.Owned
open Bytes Lib Lib.Owning

section Read

variable (env : Libc)

/-- A request for a block. -/
def malloc (c : Cursor) : Owning Unit (Nat × Cursor) :=
  match Gguf.malloc env c with
  | none => fail ()
  | some c => do
    let b ← alloc
    pure (b, c)

def readString (c : Cursor) : Owning Unit ((List UInt8 × Nat) × Cursor) := do
  let (n, c) ← ofOption (u64 c)
  if 2 ^ 20 < n then fail ()
  else do
    let (s, c) ← malloc env c
    let (text, c) ← (ofOption (rd n c)).orFree [s] ()
    pure ((cstr text, s), c)

def readNumber (width : Nat) (format : Nat → List UInt8) (c : Cursor) :
    Owning Unit ((List UInt8 × Nat) × Cursor) := do
  let (b, c) ← ofOption (rd width c)
  let (s, c) ← malloc env c
  pure ((format (leNat b), s), c)

/-- The growth of `out`. A failure leaves the block as it is. -/
def growTo : Nat → Nat → Nat → Nat → Cursor → Owning Nat ((Nat × Nat) × Cursor)
  | 0, _, _, out, _ => fail out
  | fuel + 1, need, cap, out, c =>
    if need < cap then pure ((cap, out), c)
    else if sizeMax / 2 < cap then fail out
    else do
      let (grown, c) ← (malloc env c).handle fun _ => fail out
      free [out]
      growTo fuel need (cap * 2) grown c

/-- The item loop of `read_array_text`; the text so far is in the block `out`. -/
def arrayItems (item : Cursor → Owning Unit ((List UInt8 × Nat) × Cursor)) (quoted : Bool) :
    Nat → Bool → List UInt8 → Nat → Nat → Cursor → Owning Unit ((List UInt8 × Nat) × Cursor)
  | 0, _, text, _, out, c => pure ((text, out), c)
  | n + 1, first, text, cap, out, c => do
    let ((itemText, s), c) ← (item c).orFree [out] ()
    let ((cap, out), c) ← (growTo env 64 (itemNeed text.length first quoted itemText) cap out c).handle
      fun out => do
        free [s, out]
        fail ()
    free [s]
    arrayItems item quoted n false (text ++ Gguf.itemText first quoted itemText) cap out c

def readArrayText (item : Nat → Cursor → Owning Unit ((List UInt8 × Nat) × Cursor)) (c : Cursor) :
    Owning Unit ((List UInt8 × Nat) × Cursor) := do
  let (type, c) ← ofOption (u32 c)
  let (n, c) ← ofOption (u64 c)
  if 2 ^ 20 < n then fail ()
  else do
    let (out, c) ← malloc env c
    let ((text, out), c) ← arrayItems env (item type) (type == 8) n true [91] 64 out c
    pure ((text ++ [93], out), c)

def readScalarValue : Nat → Nat → Cursor → Owning Unit ((List UInt8 × Nat) × Cursor)
  | 0, _, _ => fail ()
  | fuel + 1, type, c =>
    match type with
    | 0 => readNumber env 1 decimal c
    | 1 => readNumber env 1 (fun n => decimalInt (toSigned 8 n)) c
    | 2 => readNumber env 2 decimal c
    | 3 => readNumber env 2 (fun n => decimalInt (toSigned 16 n)) c
    | 4 => readNumber env 4 decimal c
    | 5 => readNumber env 4 (fun n => decimalInt (toSigned 32 n)) c
    | 6 => readNumber env 4 env.formatF32 c
    | 7 => readNumber env 1 boolText c
    | 8 => readString env c
    | 10 => readNumber env 8 decimal c
    | 11 => readNumber env 8 (fun n => decimalInt (toSigned 64 n)) c
    | 12 => readNumber env 8 env.formatF64 c
    | 9 => readArrayText env (readScalarValue fuel) c
    | _ => fail ()

end Read

/-- The blocks of a `VG_GGUF`: itself and its path, the array of the metadata with a key and a value
for each entry, the tensor table with the name of each record, and the two hash tables. Null is
`none`. -/
structure Held where
  self : Nat
  path : Option Nat
  metas : Option Nat
  texts : List (Nat × Nat)
  tensors : Option Nat
  names : List (Option Nat)
  tensorHash : Option Nat
  metaHash : Option Nat

/-- The object that a parse leaves. -/
structure Object where
  g : VgGguf
  held : Held

abbrev Parse := Owning (Status × Object)

section Parse

variable (env : Libc)

/-- The key/value loop. -/
def readMetas : Nat → Object → Cursor → Parse (Object × Cursor)
  | 0, x, c => pure (x, c)
  | n + 1, x, c => do
    let ((key, k), c) ← (readString env c).orFree [] (.format, x)
    let (type, c) ← (ofOption (u32 c)).orFree [k] (.format, x)
    let ((value, v), c) ← (readScalarValue env (c.rest.length + 1) type c).orFree [k] (.format, x)
    let (m, c) ← (malloc env c).orFree [k, v] (.nomem, x)
    -- `realloc` moves the array
    free x.held.metas.toList
    readMetas n ⟨{ x.g with metas := x.g.metas ++ [(key, value)] },
      { x.held with metas := some m, texts := x.held.texts ++ [(k, v)] }⟩ c

/-- The part of a tensor record behind its name and the number of its dimensions. -/
def recordRest (name : List UInt8) (nd : Nat) (c : Cursor) :
    Except (Status × GgufTensor) (GgufTensor × Cursor) := do
  let (t, c) ← readDims nd { GgufTensor.zero with name := some name, nDims := nd } c
  let (type, c) ← Gguf.orFail (.format, t) (u32 c)
  let t := { t with ggmlType := type }
  let (offset, c) ← Gguf.orFail (.format, t) (u64 c)
  let t := { t with dataOffset := offset }
  match tensorBytes t.ggmlType t.dims with
  | .error status => throw (status, t)
  | .ok nbytes => pure ({ t with nbytes := nbytes }, c)

/-- One pass of the tensor loop. A failure leaves the record, and the block of its name. -/
def readTensor (c : Cursor) :
    Owning (Status × GgufTensor × Option Nat) ((GgufTensor × Nat) × Cursor) := do
  let ((name, s), c) ← (readString env c).orFree [] (.format, .zero, none)
  let (nd, c) ← (ofOption (u32 c)).orFree [s] (.format, .zero, none)
  if 4 < nd then do
    free [s]
    fail (.format, .zero, none)
  else
    match recordRest name nd c with
    | .error (status, t) => fail (status, t, some s)
    | .ok (t, c) => pure ((t, s), c)

/-- The tensor loop. The table is `done`, then the zeroed records still to fill. -/
def readTensors (x : Object) : Nat → List GgufTensor → List (Option Nat) → Cursor →
    Parse ((List GgufTensor × List (Option Nat)) × Cursor)
  | 0, done, names, c => pure ((done, names), c)
  | n + 1, done, names, c => do
    let ((t, s), c) ← (readTensor env c).handle fun (status, t, s) =>
      fail (status, ⟨{ x.g with tensors := some (done ++ t :: List.replicate n .zero) },
        { x.held with names := names ++ s :: List.replicate n none }⟩)
    readTensors x n (done ++ [t]) (names ++ [some s]) c

/-- `calloc` of a table, if it succeeds; its failure is an error only where the table has entries. -/
def callocTable {ε : Type} (entries : Nat) (error : ε) (c : Cursor) :
    Owning ε (Option Nat × Cursor) :=
  match Gguf.malloc env c with
  | some c => do
    let b ← alloc
    pure (some b, c)
  | none => if entries = 0 then pure (none, c) else fail error

/-- The growth part of `hash_insert`; the old slots are freed. -/
def hashGrow (t : HashTable) (b : Nat) (c : Cursor) : Owning Unit ((HashTable × Nat) × Cursor) :=
  if t.occupied < t.cap * 3 / 4 then pure ((t, b), c)
  else do
    let (nt, c) ← malloc env c
    free [b]
    pure ((t.rehash (t.cap * 2), nt), c)

/-- `hash_insert` into a table that has slots. -/
def hashInsert {ε : Type} (t : HashTable) (b : Nat) (key : List UInt8) (index : Nat) (c : Cursor) :
    Owning ε ((HashTable × Nat) × Cursor) :=
  (do
    let ((t, b), c) ← hashGrow env t b c
    match hashFind t key with
    | none => pure ((t, b), c)
    | some i =>
      if (t.slots[i]?.join).isSome then pure ((t, b), c) else pure ((t.put i key index, b), c)).handle
  fun _ => pure ((t, b), c)

def hashInsertAll {ε : Type} : List (List UInt8) → Nat → HashTable → Nat → Cursor →
    Owning ε ((HashTable × Nat) × Cursor)
  | [], _, t, b, c => pure ((t, b), c)
  | key :: keys, index, t, b, c => do
    let ((t, b), c) ← hashInsert env t b key index c
    hashInsertAll keys (index + 1) t b c

/-- A name table as `calloc` left it, filled in file order. -/
def fillHash {ε : Type} (b : Option Nat) (keys : List (List UInt8)) (c : Cursor) :
    Owning ε ((Option HashTable × Option Nat) × Cursor) :=
  match b with
  | none => pure ((none, none), c)
  | some b => do
    let ((t, b), c) ← hashInsertAll env keys 0 (HashTable.empty (hashCap keys.length)) b c
    pure ((some t, some b), c)

/-- The tail of `parse_index`: build the two name tables. -/
def buildHashes (x : Object) (c : Cursor) : Parse Object := do
  let (b, c) ← callocTable env x.g.tensorCount (.nomem, x) c
  let ((t, b), c) ← fillHash env b (x.g.tensorList.map fun t => t.name.getD []) c
  let x : Object := ⟨{ x.g with tensorHash := t }, { x.held with tensorHash := b }⟩
  let (b, c) ← callocTable env x.g.metas.length (.nomem, x) c
  let ((t, b), _) ← fillHash env b (x.g.metas.map Prod.fst) c
  pure ⟨{ x.g with metaHash := t }, { x.held with metaHash := b }⟩

/-- What `parse_index` does once header and metadata are read. -/
def parseTable (x : Object) (c : Cursor) : Parse Object := do
  let (b, c) ← callocTable env x.g.tensorCount (.nomem, x) c
  let x : Object := ⟨x.g, { x.held with tensors := b }⟩
  let ((tensors, names), c) ← readTensors env x x.g.tensorCount [] [] c
  let base := alignUp64 c.pos (declaredAlignment x.g.metas)
  let g := { x.g with tensors := some tensors, dataBase := base }
  let x : Object := ⟨g, { x.held with names := names }⟩
  if base = 0 then fail (.range, x)
  else if tensors.any (rangeRefused g) then fail (.range, x)
  else buildHashes env x c

def parseIndex (file : GgufFile) (held : Held) : Parse Object :=
  match readHeader (VgGguf.blank file.size) ⟨file.bytes, 0, 0⟩ with
  | .error (status, g) => fail (status, ⟨g, held⟩)
  | .ok (g, kvCount, c) => do
    let (x, c) ← readMetas env kvCount ⟨g, held⟩ c
    parseTable env x c

/-- `vg_gguf_open` up to the call of `parse_index`: the object, and its path if that can be copied. -/
def openHeld (pathOk : Bool) : Held :=
  ⟨0, if pathOk then some 1 else none, none, [], none, [], none, none⟩

def openBlocks (pathOk : Bool) : Blocks := ⟨if pathOk then 2 else 1, []⟩

/-- `vg_gguf_open` of a file that can be read, its object allocated. A failed parse is followed by
`vg_gguf_close`. -/
def vgGgufOpen (pathOk : Bool) (file : GgufFile) : Except (Status × Object) Object × Blocks :=
  parseIndex env file (openHeld pathOk) (openBlocks pathOk)

end Parse

section Close

/-- The elements below an index, if all of them are in the array. -/
def below {α : Type} (l : List α) (n : Nat) : Option (List α) := if n ≤ l.length then some (l.take n) else none

/-- The blocks that `vg_gguf_close` frees; nothing where it reads outside of an array. -/
def vgGgufClose (x : Object) : Option (List Nat) := do
  let names ← below x.held.names x.g.tensorCount
  let texts ← below x.held.texts x.g.metas.length
  some (names.filterMap id ++ texts.flatMap (fun t => [t.1, t.2]) ++ x.held.tensors.toList ++
    x.held.metas.toList ++ x.held.tensorHash.toList ++ x.held.metaHash.toList ++
    x.held.path.toList ++ [x.held.self])

/-- The object can be closed: no array is read outside, and then each block that was ever allocated
has been freed once. -/
def Closable (x : Object) (h : Blocks) : Prop :=
  ∃ bs, vgGgufClose x = some bs ∧ (h.freed ++ bs).Perm (List.range h.allocated)

end Close

end VgEngine.Gguf.Owned
