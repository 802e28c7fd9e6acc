import VgEngine.Tokenizer.Decode

/-! From text to token ids: reserved tokens first, then for each segment between them the greedy
match of a SentencePiece vocabulary or byte-level pair encoding. `none` is a read or a write past
the end of a buffer. -/
namespace VgEngine.Tokenizer
open Bytes Lib Model

/-- The caller's array of `room` ids, what is written of it, and the count of all ids. -/
structure IdBuffer where
  room : Nat
  written : List Int
  n : Nat
deriving DecidableEq, Repr

def IdBuffer.put (b : IdBuffer) (id : Int) : IdBuffer :=
  { b with written := if b.n < b.room then b.written ++ [id] else b.written, n := b.n + 1 }

/-- The index of a byte in `gpt2ByteToCp`, if it does not keep its own value. -/
def gpt2FallbackIndex (b : UInt8) : Option Nat :=
  if b ≤ 0x20 then some b.toNat
  else if 0x7F ≤ b ∧ b ≤ 0xA0 then some (33 + b.toNat - 0x7F)
  else if b = 0xAD then some 67
  else none

/-- The codepoint that stands for a byte. -/
def fwdCp (b : UInt8) : Nat :=
  match gpt2FallbackIndex b with
  | some i => 0x100 + i
  | none => b.toNat

/-- `encode_byte_fwd` -/
def encodeByteFwd (b : UInt8) : List UInt8 :=
  let cp := fwdCp b
  if cp < 0x80 then [UInt8.ofNat cp] else [UInt8.ofNat (0xC0 + cp / 64), UInt8.ofNat (0x80 + cp % 64)]

def tcSpace (c : UInt8) : Bool := c == 32 || c == 9 || c == 10 || c == 13 || c == 12 || c == 11

def tcDigit (c : UInt8) : Bool := 48 ≤ c && c ≤ 57

def tcAlpha (c : UInt8) : Bool := (65 ≤ c && c ≤ 90) || (97 ≤ c && c ≤ 122) || 0x80 ≤ c

def tcOther (c : UInt8) : Bool := !tcSpace c && !tcAlpha c && !tcDigit c

/-- The run of one class at the head of a text, the terminator being in none. -/
def wordRun (p : List UInt8) : List UInt8 :=
  let c := p.head?.getD 0
  if tcAlpha c then p.takeWhile tcAlpha
  else if tcDigit c then p.takeWhile tcDigit
  else if !tcSpace c then p.takeWhile tcOther
  else p.takeWhile tcSpace

/-- The bytes from `s` on to the terminator, if the block has one. -/
def strlenAt (s : List UInt8) : Option (List UInt8) := if 0 ∈ s then some (cstr s) else none

/-- The length of a character by its first byte. -/
def needCp (lead : UInt8) : Nat :=
  if 0xF0 ≤ lead then 4 else if 0xE0 ≤ lead then 3 else if 0xC0 ≤ lead then 2 else 1

/-- Spaces become marks; with `removeExtra`, a space behind another one is left out. -/
def normalizeSpaces (removeExtra : Bool) : Bool → List UInt8 → List UInt8
  | _, [] => []
  | prevSpace, c :: q =>
    if c = 32 ∧ removeExtra ∧ prevSpace then normalizeSpaces removeExtra prevSpace q
    else (if c = 32 then spaceMark else [c]) ++ normalizeSpaces removeExtra (c == 32) q

namespace VgTokenizer

variable (tok : VgTokenizer)

/-- `bpe_word_apply`, with a piece for each entry of `off` and `len`. The joined piece is built in
512 bytes. -/
def bpeWordApply : Nat → List (List UInt8) → Option (List (List UInt8))
  | 0, w => some w
  | fuel + 1, w =>
    match RankedMerge.bestPair tok.findMerge w with
    | none => some w
    | some best =>
      if (w.getD best.2 [] ++ w.getD (best.2 + 1) []).length ≤ 512 then
        bpeWordApply fuel (RankedMerge.mergeAt best.2 w)
      else none

/-- `emit_word`. A piece that is not in the vocabulary is emitted as 0. -/
def emitWord (w : List (List UInt8)) (b : IdBuffer) : IdBuffer :=
  w.foldl (fun b piece => b.put (((tok.findTokenN piece).getD 0 : Nat) : Int)) b

/-- The words of byte-level encoding; each takes a byte of the text. -/
def encodeWords : Nat → List UInt8 → IdBuffer → Option IdBuffer
  | 0, _, b => some b
  | fuel + 1, p, b =>
    if p = [] then some b
    else
      -- a single leading space belongs to the word behind it
      let lead := p.head? == some 32
      let p := if lead then p.tail else p
      let run := wordRun p
      if run = [] ∧ lead = false then some b
      else
        let w := (if lead then [encodeByteFwd 32] else []) ++ run.map encodeByteFwd
        match tok.bpeWordApply w.length w with
        | none => none
        | some w => encodeWords fuel (p.drop run.length) (tok.emitWord w b)

def spmNormalize (text : List UInt8) : List UInt8 :=
  (if tok.addDummyPrefix then spaceMark else []) ++ normalizeSpaces tok.removeExtraWs true text

/-- The block of the normalised text; behind the terminator it holds what the heap left there. -/
def normBlock (junk : Nat → UInt8) (text : List UInt8) : List UInt8 :=
  let norm := tok.spmNormalize text
  norm ++ 0 :: (List.range (text.length * 3 + 8 - (norm.length + 1))).map junk

/-- The longest match so far, as its id and length, and the entry of another length. -/
def longerMatch (s : List UInt8) (best : Option (Nat × Nat)) (len : Nat) : Option (Nat × Nat) :=
  match tok.findTokenN (s.take len) with
  | none => best
  | some id => some (id, len)

/-- The longest vocabulary entry at the head of `s`, from `need` bytes on and below 512. -/
def longestMatch (s : List UInt8) (need : Nat) : Option (Nat × Nat) :=
  (List.range' need (min (s.length + 1) 512 - need)).foldl (tok.longerMatch s) none

/-- The matching loop of the SentencePiece branch over the rest of the block. -/
def encodePieces : Nat → List UInt8 → IdBuffer → Option IdBuffer
  | 0, _, _ => none
  | fuel + 1, block, b =>
    match block with
    | [] => none
    | c :: _ =>
      if c = 0 then some b
      else
        match strlenAt block with
        | none => none
        | some s =>
          match tok.longestMatch s (needCp c) with
          | some (id, len) => encodePieces fuel (block.drop len) (b.put id)
          | none => encodePieces fuel (block.drop (needCp c)) (b.put 0)

/-- `vg_tokenizer_encode_body` -/
def encodeBody (junk : Nat → UInt8) (text : List UInt8) (b : IdBuffer) : Option IdBuffer :=
  if tok.gpt2ByteMap then tok.encodeWords (text.length + 1) text b
  else
    let block := tok.normBlock junk text
    tok.encodePieces (block.length + 1) block b

/-- The longest reserved token so far, as its id and length, and another one. -/
def longerAdded (p : List UInt8) (best : Option (Nat × Nat)) (i : Fin tok.vocab.length) :
    Option (Nat × Nat) :=
  let s := (tok.vocab.get i).val
  if (best.map Prod.snd).getD 0 < s.length ∧ s.isPrefixOf p then some (i.val, s.length) else best

/-- `match_added_token`: the longest reserved token at the head, as its id and length. -/
def matchAdded (p : List UInt8) : Option (Nat × Nat) := tok.added.foldl (tok.longerAdded p) none

end VgTokenizer

/-- `flush_segment`, given the encoding of a segment. -/
def flushSegment (body : List UInt8 → IdBuffer → Option IdBuffer) (seg : List UInt8)
    (b : IdBuffer) : Option IdBuffer :=
  if seg = [] then some b
  else
    (body seg ⟨b.room - b.n, [], 0⟩).map fun got =>
      { b with written := b.written ++ got.written, n := b.n + got.n }

namespace VgTokenizer

variable (tok : VgTokenizer) (body : Nat → List UInt8 → IdBuffer → Option IdBuffer)

/-- The loop of `vg_tokenizer_encode_impl`, with the segment that waits to be flushed; `body` is
given the count of ids before it. -/
def encodeSegments : Nat → List UInt8 → List UInt8 → IdBuffer → Option IdBuffer
  | 0, _, _, _ => none
  | fuel + 1, seg, p, b =>
    match p with
    | [] => flushSegment (body b.n) seg b
    | c :: q =>
      match tok.matchAdded p with
      | none => encodeSegments fuel (seg ++ [c]) q b
      | some (id, len) =>
        match flushSegment (body b.n) seg b with
        | none => none
        | some b => encodeSegments fuel [] (p.drop len) (b.put id)

/-- `vg_tokenizer_encode_impl`, given the encoding of a segment. -/
def encodeImpl (text : List UInt8) (b : IdBuffer) : Option IdBuffer :=
  if tok.added = [] then body b.n text b
  else tok.encodeSegments body (text.length + 1) [] text b

/-- `vg_tokenizer_encode` into an array of `room` ids; `junk` is what fresh blocks hold. -/
def encode (junk : Nat → Nat → UInt8) (text : List UInt8) (room : Nat) : Option IdBuffer :=
  tok.encodeImpl (fun n => tok.encodeBody (junk n)) text ⟨room, [], 0⟩

end VgTokenizer

end VgEngine.Tokenizer
