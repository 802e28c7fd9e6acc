import VgEngine.Gguf.Read

/-! Metadata values as the model readers take them, and names of tensors. -/
namespace VgEngine.Model
open Bytes Gguf

/-- The bytes of an ASCII literal. -/
def txt (s : String) : List UInt8 := s.toList.map fun c => UInt8.ofNat c.toNat

/-- `snprintf` into a buffer of `size` bytes. -/
def snprintf (size : Nat) (parts : List (List UInt8)) : List UInt8 := parts.flatten.take (size - 1)

/-- The position of a key in the metadata. -/
def findMetaIndex (g : VgGguf) (key : List UInt8) : Option Nat :=
  match g.metaHash.bind (HashTable.lookup · key) with
  | some i => some i
  | none => g.metas.findIdx? fun m => m.1 == key

/-- `vg_gguf_meta`. -/
def ggufMeta (g : VgGguf) (key : List UInt8) : Option (List UInt8) :=
  (findMetaIndex g key).bind fun i => g.metas[i]?.map Prod.snd

/-- `vg_gguf_find_tensor`, without the position. -/
def find (g : VgGguf) (name : List UInt8) : Option GgufTensor := (findTensor g name).map Prod.snd

/-- A dimension of a record; those beyond `nDims` are zero. -/
def dim (t : GgufTensor) (i : Nat) : Nat := t.dims.getD i 0

/-- `blk.%u.` and what follows it. -/
def blk (layer : Nat) (suffix : String) : List UInt8 :=
  txt "blk." ++ decimal layer ++ txt "." ++ txt suffix

/-- Past the opening bracket, blanks and commas of a rendered value. -/
def skipList (s : List UInt8) : List UInt8 := s.dropWhile fun c => c == 91 || c == 32 || c == 44

/-- Whether `strtol` moves its end pointer. -/
def strtolConverts (s : List UInt8) : Bool :=
  match s.dropWhile isSpace with
  | 45 :: ds => ds.head?.any isDigit
  | 43 :: ds => ds.head?.any isDigit
  | ds => ds.head?.any isDigit

/-- The cast of a `long` to `int32_t`. -/
def toInt32 (x : Int) : Int := toSigned 32 (x % 2 ^ 32).toNat

/-- The cast of an `int32_t` to `uint32_t`. -/
def toUInt32 (x : Int) : Nat := (x % 2 ^ 32).toNat

/-- Arithmetic of `uint32_t`. -/
def wrap32 (n : Nat) : Nat := n % 2 ^ 32

def supportedScalar (type : Nat) : Bool :=
  (quantInfo type).isSome && !([9, 16, 17, 18, 19, 21, 22, 23, 29, 39, 40].contains type)

def quantNames : List (Nat × String) :=
  [(0, "F32"), (1, "F16"), (30, "BF16"), (4, "F64"), (2, "Q4_0"), (3, "Q4_1"), (6, "Q5_0"),
   (7, "Q5_1"), (8, "Q8_0"), (20, "IQ4_NL"), (10, "Q2_K"), (11, "Q3_K"), (12, "Q4_K"),
   (13, "Q5_K"), (14, "Q6_K"), (15, "Q8_K"), (24, "I8"), (25, "I16"), (26, "I32"), (27, "I64"),
   (9, "Q8_1"), (16, "IQ2_XXS"), (17, "IQ2_XS"), (18, "IQ3_XXS"), (19, "IQ1_S"), (21, "IQ3_S"),
   (22, "IQ2_S"), (23, "IQ4_XS"), (29, "IQ1_M"), (39, "MXFP4"), (40, "NVFP4"), (34, "TQ1_0"),
   (35, "TQ2_0"), (41, "Q1_0"), (42, "Q2_0")]

/-- The name of a type, or what stands for a type that is not in the table. -/
def quantName (other : String) (type : Nat) : List UInt8 :=
  txt (((quantNames.find? fun q => q.1 == type).map Prod.snd).getD other)

/-- Every type of the geometry table has a name. -/
theorem quantNames_complete : quantNames.map Prod.fst = quantTable.map QuantInfo.kind := by decide

end VgEngine.Model
