import VgEngine.Tokenizer.Model

/-! From token ids back to text: the pieces as they are rendered, into buffers of a given size. -/
namespace VgEngine.Tokenizer
open Bytes Model

/-- `gpt2_byte_to_cp`: the bytes that stand at U+0100..U+0143. -/
def gpt2ByteToCp : List UInt8 :=
  [0x00, 0x01, 0x02, 0x03, 0x04, 0x05, 0x06, 0x07, 0x08, 0x09, 0x0A, 0x0B, 0x0C, 0x0D, 0x0E, 0x0F,
   0x10, 0x11, 0x12, 0x13, 0x14, 0x15, 0x16, 0x17, 0x18, 0x19, 0x1A, 0x1B, 0x1C, 0x1D, 0x1E, 0x1F,
   0x20, 0x7F, 0x80, 0x81, 0x82, 0x83, 0x84, 0x85, 0x86, 0x87, 0x88, 0x89, 0x8A, 0x8B, 0x8C, 0x8D,
   0x8E, 0x8F, 0x90, 0x91, 0x92, 0x93, 0x94, 0x95, 0x96, 0x97, 0x98, 0x99, 0x9A, 0x9B, 0x9C, 0x9D,
   0x9E, 0x9F, 0xA0, 0xAD]

/-- U+2581 in UTF-8, the mark of a space in a SentencePiece vocabulary. -/
def spaceMark : List UInt8 := utf8Put 0x2581

/-- A SentencePiece token as text: its marks become spaces. -/
def spmRender : List UInt8 → List UInt8
  | [] => []
  | c :: s =>
    match s with
    | d :: e :: s =>
      if c = 0xE2 ∧ d = 0x96 ∧ e = 0x81 then 32 :: spmRender s else c :: spmRender (d :: e :: s)
    | s => c :: spmRender s

theorem spmRender_cons (b : UInt8) (s : List UInt8) : spmRender (b :: s) =
    if spaceMark <+: b :: s then 32 :: spmRender (s.drop 2) else b :: spmRender s := by
  have hmark : spaceMark = [0xE2, 0x96, 0x81] := by decide +kernel
  rw [hmark]
  rcases s with _ | ⟨d, _ | ⟨e, s⟩⟩
  · simp [spmRender]
  · simp [spmRender]
  · rw [spmRender]
    simp [eq_comm]

/-- What a codepoint of a byte-level token stands for, given its own bytes. -/
def renderCp (cp : Nat) (own : List UInt8) : List UInt8 :=
  if 0x100 ≤ cp ∧ cp ≤ 0x143 then [gpt2ByteToCp.getD (cp - 0x100) 0]
  else if 0xA1 ≤ cp ∧ cp ≤ 0xFF then [UInt8.ofNat cp]
  else own

/-- A byte-level token as text, codepoint by codepoint; each takes a byte at least. -/
def byteRender : Nat → List UInt8 → List UInt8
  | 0, _ => []
  | fuel + 1, s =>
    if s = [] then []
    else
      let (cp, seq) := utf8Seq s
      renderCp cp (s.take seq) ++ byteRender fuel (s.drop seq)

/-- What a write of `full` leaves in a buffer of `len` bytes. -/
def terminated (full : List UInt8) (len : Nat) : List UInt8 :=
  if len = 0 then [] else full.take (len - 1) ++ [0]

namespace VgTokenizer

variable (tok : VgTokenizer)

def render (text : List UInt8) : List UInt8 :=
  if tok.gpt2ByteMap then byteRender text.length text else spmRender text

/-- The text of an id that the vocabulary has. -/
def textOf (id : Int) : Option (List UInt8) := if id < 0 then none else tok.tokenText id.toNat

/-- `vg_tokenizer_decode`: the bytes left in the buffer, if one is given, and the length. -/
def decode (id : Int) (buf : Option Nat) : List UInt8 × Nat :=
  match tok.textOf id with
  | none => (terminated [] (buf.getD 0), 0)
  | some text => (terminated (tok.render text) (buf.getD 0), (tok.render text).length)

/-- One token of `vg_tokenizer_decode_sequence`, with the bytes so far and the capacity. -/
def decodeNext (b : List UInt8 × Nat) (id : Int) : List UInt8 × Nat :=
  let len := b.1.length
  let need := (tok.decode id none).2
  let cap := if b.2 ≤ len + need + 1 then (len + need + 1) * 2 else b.2
  let piece := tok.decode id (some (cap - len))
  (b.1 ++ piece.1.take piece.2, cap)

/-- Whether the text starts with the space of the dummy prefix. -/
def startsMarked (ids : List Int) (bytes : List UInt8) : Bool :=
  !tok.gpt2ByteMap && bytes.head? == some 32 &&
    ((ids.head?.bind tok.textOf).any fun text => spaceMark.isPrefixOf text)

/-- `vg_tokenizer_decode_sequence`: the C string it returns. -/
def decodeSequence (ids : List Int) : List UInt8 :=
  let bytes := (ids.foldl tok.decodeNext ([], 64 + 8 * ids.length)).1
  cstr (if tok.startsMarked ids bytes then bytes.tail else bytes)

end VgTokenizer

section Decode

variable {tok : VgTokenizer} {id : Int} {ids : List Int}

/-- The text that an id stands for. -/
def VgTokenizer.piece (tok : VgTokenizer) (id : Int) : List UInt8 :=
  ((tok.textOf id).map tok.render).getD []

theorem decode_eq (buf : Option Nat) :
    tok.decode id buf = (terminated (tok.piece id) (buf.getD 0), (tok.piece id).length) := by
  unfold VgTokenizer.decode VgTokenizer.piece
  cases tok.textOf id <;> rfl

theorem terminated_take {full : List UInt8} {len : Nat} (h : full.length < len) :
    (terminated full len).take full.length = full := by
  have hfull : full.take (len - 1) = full := List.take_of_length_le (by omega)
  unfold terminated
  rw [if_neg (by omega), hfull, List.take_left]

theorem decodeNext_fst (b : List UInt8 × Nat) :
    (tok.decodeNext b id).1 = b.1 ++ tok.piece id := by
  unfold VgTokenizer.decodeNext
  simp only [decode_eq, Option.getD_some]
  congr 1
  apply terminated_take
  split_ifs <;> omega

theorem foldl_decodeNext (b : List UInt8 × Nat) :
    (ids.foldl tok.decodeNext b).1 = b.1 ++ (ids.map tok.piece).flatten := by
  induction ids generalizing b with
  | nil => simp
  | cons id ids ih => simp [ih, decodeNext_fst]

/-- The sequence is the concatenation of its pieces, less the space of a dummy prefix. -/
theorem decodeSequence_eq (ids : List Int) : tok.decodeSequence ids =
    cstr (if tok.startsMarked ids (ids.map tok.piece).flatten then (ids.map tok.piece).flatten.tail
      else (ids.map tok.piece).flatten) := by
  unfold VgTokenizer.decodeSequence
  rw [foldl_decodeNext]
  rfl

end Decode

end VgEngine.Tokenizer
