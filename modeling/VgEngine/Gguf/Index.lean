import VgEngine.Gguf.Hash
import VgEngine.Gguf.Quant

/-! `parse_index`: header, metadata, tensor table, data base and range check. A
failure carries the status together with the object it leaves behind. -/
namespace VgEngine.Gguf
open Bytes

/-- A regular file that `vg_gguf_open` hands to the parser: it is at least as long
as the header, and its size is an `off_t`. -/
structure GgufFile where
  bytes : List UInt8
  size_ge : 24 ≤ bytes.length
  size_lt : bytes.length < 2 ^ 63

def GgufFile.size (file : GgufFile) : Nat := file.bytes.length

/-- One record of the tensor table. A null name is `none`; the unused tail of the
four dimensions stays zero and is left out. -/
structure GgufTensor where
  name : Option (List UInt8)
  nDims : Nat
  dims : List Nat
  ggmlType : Nat
  dataOffset : Nat
  nbytes : Nat
deriving DecidableEq, Repr

/-- A record as `calloc` leaves it. -/
def GgufTensor.zero : GgufTensor := ⟨none, 0, [], 0, 0, 0⟩

/-- `tensors` is `none` while the table is not allocated. -/
structure VgGguf where
  fileSize : Nat
  dataBase : Nat
  tensorCount : Nat
  tensors : Option (List GgufTensor)
  metas : List (List UInt8 × List UInt8)
  tensorHash : Option HashTable
  metaHash : Option HashTable
deriving DecidableEq, Repr

def VgGguf.blank (fileSize : Nat) : VgGguf := ⟨fileSize, 0, 0, none, [], none, none⟩

def VgGguf.tensorList (g : VgGguf) : List GgufTensor := g.tensors.getD []

abbrev Parse := Except (Status × VgGguf)

/-- Turn the failure of a reader into a parse error. -/
def orFail {ε α : Type} (error : ε) : Option α → Except ε α
  | none => .error error
  | some a => .ok a

def findMeta (metas : List (List UInt8 × List UInt8)) (key : List UInt8) : Option (List UInt8) :=
  (metas.find? fun m => m.1 == key).map Prod.snd

/-- `general.alignment` -/
def alignmentKey : List UInt8 :=
  [103, 101, 110, 101, 114, 97, 108, 46, 97, 108, 105, 103, 110, 109, 101, 110, 116]

def declaredAlignment (metas : List (List UInt8 × List UInt8)) : Nat :=
  match findMeta metas alignmentKey with
  | none => 32
  | some v => if 1 ≤ strtoull v ∧ strtoull v ≤ 4096 then strtoull v else 32

def alignUp64 (x a : Nat) : Nat :=
  if a ≠ 0 ∧ x ≤ sizeMax - (a - 1) then (x + a - 1) / a * a else 0

/-- Product of the slow dimensions, refused when it leaves 64 bits. -/
def tensorRows : Nat → List Nat → Option Nat
  | rows, [] => some rows
  | rows, d :: ds => if sizeMax / d < rows then none else tensorRows (rows * d) ds

def quantLayout (type : Nat) : Option (Nat × Nat) :=
  (quantInfo type).map fun q => (q.blockSize, q.bytesPerBlock)

/-- Byte size of a tensor, with the status of the check that refuses it. -/
def tensorBytes (type : Nat) (dims : List Nat) : Except Status Nat := do
  let rows ← orFail .range (tensorRows 1 dims.tail)
  let (block, ts) ← orFail .unsupported (quantLayout type)
  let nfast := dims.headD 1
  if nfast % block ≠ 0 ∨ sizeMax / (nfast / block) < rows ∨
      sizeMax / ts < rows * (nfast / block) then throw .unsupported
  else pure (rows * (nfast / block) * ts)

variable (env : Libc)

/-- The `u64` dimensions of one record. On failure the record keeps those read. -/
def readDims : Nat → GgufTensor → Cursor → Except (Status × GgufTensor) (GgufTensor × Cursor)
  | 0, t, c => .ok (t, c)
  | n + 1, t, c => do
    let (d, c) ← orFail (.format, t) (u64 c)
    if d = 0 then throw (.format, { t with dims := t.dims ++ [d] })
    else readDims n { t with dims := t.dims ++ [d] } c

/-- One pass of the tensor loop. The error keeps the record as far as it was filled. -/
def readTensor (c : Cursor) : Except (Status × GgufTensor) (GgufTensor × Cursor) := do
  let (name, c) ← orFail (.format, .zero) (readString env c)
  let (nd, c) ← orFail (.format, .zero) (u32 c)
  if 4 < nd then throw (.format, .zero)
  else
    let (t, c) ← readDims nd { GgufTensor.zero with name := some name, nDims := nd } c
    let (type, c) ← orFail (.format, t) (u32 c)
    let t := { t with ggmlType := type }
    let (offset, c) ← orFail (.format, t) (u64 c)
    let t := { t with dataOffset := offset }
    match tensorBytes t.ggmlType t.dims with
    | .error status => throw (status, t)
    | .ok nbytes => pure ({ t with nbytes := nbytes }, c)

/-- The tensor loop. The table is `done`, then the zeroed records still to fill. -/
def readTensors (g : VgGguf) : Nat → List GgufTensor → Cursor → Parse (List GgufTensor × Cursor)
  | 0, done, c => .ok (done, c)
  | n + 1, done, c =>
    match readTensor env c with
    | .error (status, t) =>
      .error (status, { g with tensors := some (done ++ t :: List.replicate n .zero) })
    | .ok (t, c) => readTensors g n (done ++ [t]) c

/-- The key/value loop. -/
def readMetas : Nat → VgGguf → Cursor → Parse (VgGguf × Cursor)
  | 0, g, c => .ok (g, c)
  | n + 1, g, c => do
    let (key, c) ← orFail (.format, g) (readString env c)
    let (type, c) ← orFail (.format, g) (u32 c)
    let (value, c) ← orFail (.format, g) (readScalarValue env (c.rest.length + 1) type c)
    let c ← orFail (.nomem, g) (malloc env c)
    readMetas n { g with metas := g.metas ++ [(key, value)] } c

/-- Magic, version and the two counts. -/
def readHeader (g : VgGguf) (c : Cursor) : Parse (VgGguf × Nat × Cursor) := do
  let (magic, c) ← orFail (.format, g) (u32 c)
  if magic ≠ 0x46554747 then throw (.format, g)
  else
    let (version, c) ← orFail (.format, g) (u32 c)
    if version < 2 ∨ 3 < version then throw (.format, g)
    else
      let (tensorCount, c) ← orFail (.format, g) (u64 c)
      let g := { g with tensorCount := tensorCount }
      let (kvCount, c) ← orFail (.format, g) (u64 c)
      if 2 ^ 24 < tensorCount ∨ 2 ^ 24 < kvCount then throw (.range, g)
      else pure (g, kvCount, c)

/-- The range check of one record, in 64-bit arithmetic. -/
def rangeRefused (g : VgGguf) (t : GgufTensor) : Bool :=
  sub64 g.fileSize g.dataBase < t.dataOffset ∨
    sub64 (sub64 g.fileSize g.dataBase) t.dataOffset < t.nbytes

/-- `calloc` of a table: its failure is an error only where the table has entries.
The flag tells whether the table exists. -/
def callocTable {ε : Type} (entries : Nat) (error : ε) (c : Cursor) :
    Except ε (Bool × Cursor) :=
  match malloc env c with
  | some c => .ok (true, c)
  | none => if entries = 0 then .ok (false, c) else .error error

/-- Initial capacity of a name table. -/
def hashCap (entries : Nat) : Nat := if 64 < entries then entries else 64

/-- A name table as `calloc` left it, filled in file order. -/
def fillHash (allocated : Bool) (keys : List (List UInt8)) (c : Cursor) :
    Option HashTable × Cursor :=
  if allocated then
    let (t, c) := hashInsertAll env keys 0 (HashTable.empty (hashCap keys.length)) c
    (some t, c)
  else (none, c)

/-- The tail of `parse_index`: build the two name tables. -/
def buildHashes (g : VgGguf) (c : Cursor) : Parse VgGguf := do
  let (allocated, c) ← callocTable env g.tensorCount (.nomem, g) c
  let (tensorHash, c) := fillHash env allocated (g.tensorList.map fun t => t.name.getD []) c
  let g := { g with tensorHash := tensorHash }
  let (allocated, c) ← callocTable env g.metas.length (.nomem, g) c
  let (metaHash, _) := fillHash env allocated (g.metas.map Prod.fst) c
  pure { g with metaHash := metaHash }

/-- What `parse_index` does once header and metadata are read. -/
def parseTable (g : VgGguf) (c : Cursor) : Parse VgGguf := do
  let (_, c) ← callocTable env g.tensorCount (.nomem, g) c
  let (tensors, c) ← readTensors env g g.tensorCount [] c
  let g := { g with tensors := some tensors }
  let base := alignUp64 c.pos (declaredAlignment g.metas)
  let g := { g with dataBase := base }
  if base = 0 then throw (.range, g)
  else if tensors.any (rangeRefused g) then throw (.range, g)
  else buildHashes env g c

def parseIndex (file : GgufFile) : Parse VgGguf := do
  let (g, kvCount, c) ← readHeader (VgGguf.blank file.size) ⟨file.bytes, 0, 0⟩
  let (g, c) ← readMetas env kvCount g c
  parseTable env g c

end VgEngine.Gguf
