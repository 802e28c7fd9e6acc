import VgEngine.Lib.Probing
import VgEngine.Lib.RankedMerge
import VgEngine.Model.Metadata

/-! The tokenizer: its vocabulary, its merge rules and its reserved tokens, the hash indexes over
them, and how all of it is loaded from the metadata. Allocations succeed. -/
namespace VgEngine.Tokenizer
open Bytes Lib Gguf Model

/-- A C string: its bytes, the terminator not among them. -/
abbrev CString := {s : List UInt8 // 0 ∉ s}

def CString.ofBytes (s : List UInt8) : CString :=
  ⟨cstr s, fun h => by simpa using List.mem_takeWhile_imp h⟩

/-- `VG_Tokenizer`. The id of a vocabulary entry is its position, the rank of a merge rule its
position; a reserved token is a vocabulary entry of at least two bytes. -/
structure VgTokenizer where
  vocab : List CString
  merges : List (CString × CString)
  bosId : Int
  eosId : Int
  addBos : Bool
  gpt2ByteMap : Bool
  addDummyPrefix : Bool
  removeExtraWs : Bool
  added : List (Fin vocab.length)
  added_long : ∀ i ∈ added, 2 ≤ vocab[i].val.length

def vgHashBytes (p : List UInt8) : Nat :=
  p.foldl (fun h b => (h ^^^ b.toNat) * 1099511628211 % 2 ^ 64) 1469598103934665603

def mergeHash (a b : List UInt8) : Nat :=
  (vgHashBytes a ^^^ vgHashBytes b) * 1099511628211 % 2 ^ 64

/-- The doublings of `vg_index_build`; each pass adds to the capacity, so `n` passes suffice. -/
def growCap : Nat → Nat → Nat → Nat
  | 0, _, cap => cap
  | passes + 1, n, cap => if cap < n * 2 then growCap passes n (cap * 2) else cap

def indexCap (n : Nat) : Nat := growCap n n 16

/-- The lower of the best rank so far and another one. -/
def lower (best : Option Nat) (i : Nat) : Option Nat :=
  match best with
  | none => some i
  | some r => if i < r then some i else some r

namespace VgTokenizer

variable (tok : VgTokenizer)

/-- `vg_tokenizer_token_text` -/
def tokenText (id : Nat) : Option (List UInt8) := tok.vocab[id]?.map Subtype.val

def mergeRule (i : Nat) : Option (List UInt8 × List UInt8) :=
  tok.merges[i]?.map fun m => (m.1.val, m.2.val)

/-- The `vocab_ix` of the source. Its mask takes a hash modulo the capacity. -/
def vocabIx : ProbeTable Nat :=
  ProbeTable.ofValues (fun i => ((tok.tokenText i).map vgHashBytes).getD 0)
    (indexCap tok.vocab.length) (List.range tok.vocab.length)

/-- The `merge_ix` of the source. -/
def mergeIx : ProbeTable Nat :=
  ProbeTable.ofValues (fun i => ((tok.mergeRule i).map fun m => mergeHash m.1 m.2).getD 0)
    (indexCap tok.merges.length) (List.range tok.merges.length)

def findTokenN (text : List UInt8) : Option Nat :=
  (tok.vocabIx.probe (vgHashBytes text)).find? fun i => tok.tokenText i == some text

/-- The best rule so far, and a rule that the probe meets. -/
def lowerRank (a b : List UInt8) (best : Option Nat) (i : Nat) : Option Nat :=
  if tok.mergeRule i = some (a, b) then lower best i else best

/-- `find_merge`. Without rules there is no index. -/
def findMerge (a b : List UInt8) : Option Nat :=
  if tok.merges = [] then none
  else (tok.mergeIx.probe (mergeHash a b)).foldl (tok.lowerRank a b) none

end VgTokenizer

/-- Append one codepoint as UTF-8. -/
def utf8Put (cp : Nat) : List UInt8 :=
  if cp < 0x80 then [UInt8.ofNat cp]
  else if cp < 0x800 then [UInt8.ofNat (0xC0 + cp / 64), UInt8.ofNat (0x80 + cp % 64)]
  else if cp < 0x10000 then
    [UInt8.ofNat (0xE0 + cp / 4096), UInt8.ofNat (0x80 + cp / 64 % 64),
      UInt8.ofNat (0x80 + cp % 64)]
  else
    [UInt8.ofNat (0xF0 + cp / 262144), UInt8.ofNat (0x80 + cp / 4096 % 64),
      UInt8.ofNat (0x80 + cp / 64 % 64), UInt8.ofNat (0x80 + cp % 64)]

def isCont (c : Nat) : Bool := 0x80 ≤ c && c < 0xC0

/-- The codepoint at the head of a string and the bytes it takes; a malformed byte stands for
itself. The terminator reads as zero. -/
def utf8Seq (s : List UInt8) : Nat × Nat :=
  let c0 := (s.getD 0 0).toNat
  let c1 := (s.getD 1 0).toNat
  let c2 := (s.getD 2 0).toNat
  let c3 := (s.getD 3 0).toNat
  if c0 < 0x80 then (c0, 1)
  else if 0xC0 ≤ c0 ∧ c0 < 0xE0 ∧ isCont c1 then (c0 % 32 * 64 + c1 % 64, 2)
  else if 0xE0 ≤ c0 ∧ c0 < 0xF0 ∧ isCont c1 ∧ isCont c2 then
    (c0 % 16 * 4096 + c1 % 64 * 64 + c2 % 64, 3)
  else if 0xF0 ≤ c0 ∧ c0 < 0xF8 ∧ isCont c1 ∧ isCont c2 ∧ isCont c3 then
    (c0 % 8 * 262144 + c1 % 64 * 4096 + c2 % 64 * 64 + c3 % 64, 4)
  else (c0, 1)

section Load

def hexDigit (c : UInt8) : Nat :=
  if 48 ≤ c ∧ c ≤ 57 then c.toNat - 48
  else if 97 ≤ c ∧ c ≤ 102 then c.toNat - 97 + 10
  else if 65 ≤ c ∧ c ≤ 70 then c.toNat - 65 + 10
  else 0

def hex4 (a b c d : UInt8) : Nat :=
  ((hexDigit a * 16 + hexDigit b) * 16 + hexDigit c) * 16 + hexDigit d

/-- What an escape other than `u` stands for. -/
def unescape (e : UInt8) : UInt8 :=
  if e = 110 then 10 else if e = 114 then 13 else if e = 116 then 9 else e

def prepend (out : List UInt8) (r : List UInt8 × List UInt8) : List UInt8 × List UInt8 :=
  (out ++ r.1, r.2)

/-- `scan_quoted` behind the opening quote: the bytes it writes and what is left. An unterminated
entry ends with the string. -/
def scanQuoted : List UInt8 → List UInt8 × List UInt8
  | [] => ([], [])
  | c :: p =>
    if c = 34 then ([], p)
    else if c = 92 then
      match p with
      | [] => ([], [])
      | e :: p =>
        if e = 117 then
          match p with
          | x :: y :: z :: w :: p =>
            let cp := hex4 x y z w
            match p with
            | c :: e :: x :: y :: z :: w :: q =>
              let lo := hex4 x y z w
              if 0xD800 ≤ cp ∧ cp ≤ 0xDBFF ∧ c = 92 ∧ e = 117 ∧ 0xDC00 ≤ lo ∧ lo ≤ 0xDFFF then
                prepend (utf8Put (0x10000 + (cp - 0xD800) * 1024 + (lo - 0xDC00))) (scanQuoted q)
              else prepend (utf8Put cp) (scanQuoted (c :: e :: x :: y :: z :: w :: q))
            | p => prepend (utf8Put cp) (scanQuoted p)
          | p => ([], p)
        else prepend [unescape e] (scanQuoted p)
    else prepend [c] (scanQuoted p)

def isSeparator (c : UInt8) : Bool := c == 44 || c == 32 || c == 10 || c == 13 || c == 9

/-- `array_next`: an entry and the cursor behind it. -/
def arrayNext (p : List UInt8) : Option (List UInt8 × List UInt8) :=
  let p := p.dropWhile isSeparator
  let p := if p.head? = some 91 then p.tail else p
  match p.dropWhile isSeparator with
  | 34 :: q => some (scanQuoted q)
  | _ => none

/-- The entries up to the first failure; each takes a byte of the text. -/
def arrayEntries : Nat → List UInt8 → List (List UInt8)
  | 0, _ => []
  | fuel + 1, p =>
    match arrayNext p with
    | none => []
    | some (entry, q) => entry :: arrayEntries fuel q

def arrayStrings (text : List UInt8) : List CString :=
  (arrayEntries text.length text).map CString.ofBytes

/-- The end pointer of `strtol`. -/
def strtolEnd (s : List UInt8) : List UInt8 :=
  if strtolConverts s then
    match s.dropWhile isSpace with
    | 45 :: ds => ds.dropWhile isDigit
    | 43 :: ds => ds.dropWhile isDigit
    | ds => ds.dropWhile isDigit
  else s

/-- The numbers of `tokenizer.ggml.token_type`, at most one for each vocabulary entry. -/
def tokenTypes : Nat → List UInt8 → List Int
  | 0, _ => []
  | n + 1, q =>
    if q = [] ∨ q.head? = some 93 then []
    else
      let q := q.dropWhile fun c => c == 44 || c == 32
      if q.head? = some 93 then [] else strtol q :: tokenTypes n (strtolEnd q)

/-- Reserved: of type CONTROL or USER_DEFINED, and of two bytes at least. -/
def isAdded (vocab : List CString) (types : List Int) (i : Fin vocab.length) : Bool :=
  (types[i.val]? = some 3 ∨ types[i.val]? = some 4) ∧ 2 ≤ vocab[i].val.length

/-- Whether a token holds a codepoint of the byte-fallback range, in two bytes. -/
def hasByteFallback : Nat → List UInt8 → Bool
  | 0, _ => false
  | fuel + 1, s =>
    if s = [] then false
    else
      let (cp, seq) := utf8Seq s
      (seq = 2 ∧ 0x100 ≤ cp ∧ cp ≤ 0x143) || hasByteFallback fuel (s.drop seq)

/-- One half of a merge rule. Some producers escape it once more. -/
def mergeHalf (s : List UInt8) : List UInt8 :=
  match s with
  | [92, 117, x, y, z, w] => utf8Put (hex4 x y z w)
  | s => s

/-- A rule is split on its first space; one without a space is skipped. -/
def mergeEntry (entry : CString) : Option (CString × CString) :=
  match entry.val.dropWhile (· != 32) with
  | [] => none
  | _ :: b =>
    some (.ofBytes (mergeHalf (entry.val.takeWhile (· != 32))), .ofBytes (mergeHalf b))

/-- `meta_bool` -/
def metaBool (s : List UInt8) (dflt : Bool) : Bool :=
  if s = [] then dflt
  else if s = txt "true" ∨ s = txt "True" then true
  else if s = txt "false" ∨ s = txt "False" then false
  else strtol s != 0

variable (g : VgGguf)

def metaText (key : String) : Option (List UInt8) := (ggufMeta g (txt key)).map cstr

/-- An id of the metadata, or -1. -/
def metaId (key : String) : Int := ((metaText g key).map fun s => toInt32 (strtol s)).getD (-1)

/-- A SentencePiece flag. It is taken as a number, with 1 for a missing one. -/
def spmFlag (key : String) : Bool := ((metaText g key).map fun s => strtol s != 0).getD true

/-- `vg_tokenizer_load` -/
def tokenizerLoad : Except Status VgTokenizer :=
  match metaText g "tokenizer.ggml.tokens" with
  | none => .error .format
  | some tokens =>
    let vocab := arrayStrings tokens
    if vocab = [] then .error .format
    else
      let bosId := metaId g "tokenizer.ggml.bos_token_id"
      let addBos := ((metaText g "tokenizer.ggml.add_bos_token").map (metaBool · true)).getD true
      let tokModel := metaText g "tokenizer.ggml.model"
      let types := match metaText g "tokenizer.ggml.token_type" with
        | none => []
        | some types =>
          tokenTypes vocab.length (if types.head? = some 91 then types.tail else types)
      let rules := ((metaText g "tokenizer.ggml.merges").map arrayStrings).getD []
      .ok {
        vocab := vocab
        merges := rules.filterMap mergeEntry
        bosId := bosId
        eosId := metaId g "tokenizer.ggml.eos_token_id"
        addBos := addBos && 0 ≤ bosId
        gpt2ByteMap := (tokModel = some (txt "gpt2") ∨ tokModel = some (txt "bpe")) &&
          vocab.any fun s => hasByteFallback s.val.length s.val
        addDummyPrefix := spmFlag g "tokenizer.ggml.add_dummy_prefix"
        removeExtraWs := spmFlag g "tokenizer.ggml.remove_extra_whitespaces"
        added := (List.finRange vocab.length).filter (isAdded vocab types)
        added_long := fun i hi => by
          have h := (List.mem_filter.1 hi).2
          simp only [isAdded, decide_eq_true_eq] at h
          exact h.2 }

end Load

end VgEngine.Tokenizer
