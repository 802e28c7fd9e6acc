import VgEngine.Lib.CountedWriter
import VgEngine.Tokenizer.Decode

/-! The decoders as they write, byte by byte: a token into a buffer that may be too short for it, and
a list of tokens into a block that grows. -/
namespace VgEngine.Tokenizer
open Bytes Lib Model

/-- The SentencePiece loops of `vg_tokenizer_decode` from the `out`-th byte on: the stores and the
count. The loop that only counts is the one without a buffer. -/
def spmStores (buf : Option Nat) : Nat → List UInt8 → List (Nat × UInt8) × Nat
  | out, [] => ([], out)
  | out, c :: s =>
    match s with
    | d :: e :: s =>
      if c = 0xE2 ∧ d = 0x96 ∧ e = 0x81 then
        let r := spmStores buf (out + 1) s
        (putAt buf out 32 ++ r.1, r.2)
      else
        let r := spmStores buf (out + 1) (d :: e :: s)
        (putAt buf out c ++ r.1, r.2)
    | s =>
      let r := spmStores buf (out + 1) s
      (putAt buf out c ++ r.1, r.2)

/-- The byte-level loop from the `out`-th byte on. -/
def byteStores (buf : Option Nat) : Nat → Nat → List UInt8 → List (Nat × UInt8) × Nat
  | 0, out, _ => ([], out)
  | fuel + 1, out, s =>
    if s = [] then ([], out)
    else
      let (cp, seq) := utf8Seq s
      if 0x100 ≤ cp ∧ cp ≤ 0x143 then
        let r := byteStores buf fuel (out + 1) (s.drop seq)
        (putAt buf out (gpt2ByteToCp.getD (cp - 0x100) 0) ++ r.1, r.2)
      else if 0xA1 ≤ cp ∧ cp ≤ 0xFF then
        let r := byteStores buf fuel (out + 1) (s.drop seq)
        (putAt buf out (UInt8.ofNat cp) ++ r.1, r.2)
      else
        let own := s.take seq
        let r := byteStores buf fuel (out + own.length) (s.drop seq)
        (putFrom buf out own ++ r.1, r.2)

namespace VgTokenizer

/-- `vg_tokenizer_decode` into a buffer of so many bytes, if one is given: its stores and what it
returns. -/
def decodeStores (tok : VgTokenizer) (id : Int) (buf : Option Nat) : List (Nat × UInt8) × Nat :=
  match tok.textOf id with
  | none => (terminate buf 0 0, 0)
  | some text =>
    if tok.gpt2ByteMap then
      let r := byteStores buf text.length 0 text
      (r.1 ++ terminate buf r.2 0, r.2)
    else if buf = none ∨ buf = some 0 then ([], (spmStores none 0 text).2)
    else
      let r := spmStores buf 0 text
      (r.1 ++ terminate buf r.2 0, r.2)

/-- The buffer of `vg_tokenizer_decode_sequence`, and how far it is filled. -/
structure SequenceBuffer where
  block : Block UInt8
  pos : Nat

/-- One token of the loop; `junk` is what a new block holds behind the old bytes. -/
def decodeInto (tok : VgTokenizer) (junk : Nat → UInt8) (b : SequenceBuffer) (id : Int) :
    Option SequenceBuffer :=
  let need := (tok.decodeStores id none).2
  let block := if b.block.cap ≤ b.pos + need + 1 then b.block.realloc junk ((b.pos + need + 1) * 2)
    else b.block
  let r := tok.decodeStores id (some (block.cap - b.pos))
  (block.stores (storesAt b.pos r.1)).map fun block => ⟨block, b.pos + r.2⟩

/-- The text of the first token starts with the mark of a space. -/
def firstMarked (tok : VgTokenizer) (ids : List Int) : Bool :=
  (ids.head?.bind tok.textOf).any fun text => spaceMark.isPrefixOf text

/-- Without the byte-level map, the space of a dummy prefix is taken out: all bytes but the first
move to the front, the terminator with them. -/
def stripPrefix (tok : VgTokenizer) (ids : List Int) (b : SequenceBuffer) : SequenceBuffer :=
  if tok.gpt2ByteMap = false ∧ 0 < b.pos ∧ b.block.cell 0 = 32 ∧ tok.firstMarked ids = true then
    ⟨{ b.block with cell := fun i => b.block.cell (if i < b.pos then i + 1 else i) }, b.pos - 1⟩
  else b

/-- `vg_tokenizer_decode_sequence`: the buffer that it returns; `none` is a store behind its end. -/
def decodeSequenceInto (tok : VgTokenizer) (junk : Nat → Nat → UInt8) (ids : List Int) :
    Option SequenceBuffer :=
  (ids.zipIdx.foldlM (fun b id => tok.decodeInto (junk (id.2 + 1)) b id.1)
      ⟨⟨64 + 8 * ids.length, junk 0⟩, 0⟩).bind fun b =>
    (b.block.stores [(b.pos, 0)]).map fun block => tok.stripPrefix ids ⟨block, b.pos⟩

end VgTokenizer

section Stores

variable {buf : Option Nat} {out fuel : Nat} {s : List UInt8}

/-- A byte that is stored, and what the loop makes of the rest. -/
theorem putAt_append (c : UInt8) (rest : List UInt8) :
    (putAt buf out c ++ putFrom buf (out + 1) rest, out + 1 + rest.length) =
      (putFrom buf out (c :: rest), out + (c :: rest).length) := by
  rw [List.length_cons, Nat.add_assoc, Nat.add_comm 1]
  rfl

theorem putFrom_prepend (own rest : List UInt8) :
    (putFrom buf out own ++ putFrom buf (out + own.length) rest, out + own.length + rest.length) =
      (putFrom buf out (own ++ rest), out + (own ++ rest).length) := by
  rw [putFrom_append, List.length_append, Nat.add_assoc]

/-- What the loop stores and counts are the bytes of the rendered text. -/
theorem spmStores_eq (s : List UInt8) :
    spmStores buf out s = (putFrom buf out (spmRender s), out + (spmRender s).length) := by
  fun_induction spmRender s generalizing out with
  | case1 => rfl
  | case2 c d e s hmark ih => rw [spmStores, if_pos hmark, ih, putAt_append]
  | case3 c d e s hmark ih => rw [spmStores, if_neg hmark, ih, putAt_append]
  | case4 c s hshort ih =>
    have hlast : spmStores buf out (c :: s) =
        (putAt buf out c ++ (spmStores buf (out + 1) s).1, (spmStores buf (out + 1) s).2) := by
      cases s with
      | nil => rfl
      | cons d s =>
        cases s with
        | nil => rfl
        | cons e s => exact absurd rfl (hshort d e s)
    rw [hlast, ih, putAt_append]

theorem byteStores_eq (fuel : Nat) (s : List UInt8) : byteStores buf fuel out s =
    (putFrom buf out (byteRender fuel s), out + (byteRender fuel s).length) := by
  induction fuel generalizing out s with
  | zero => rfl
  | succ fuel ih =>
    unfold byteStores byteRender
    by_cases hend : s = []
    · rw [if_pos hend, if_pos hend]
      rfl
    · rw [if_neg hend, if_neg hend]
      obtain ⟨cp, seq⟩ := utf8Seq s
      dsimp only
      unfold renderCp
      rw [ih, ih]
      split_ifs
      · rw [putAt_append]
        rfl
      · rw [putAt_append]
        rfl
      · rw [putFrom_prepend]

end Stores

section Contract

variable {tok : VgTokenizer}

theorem decodeStores_eq (tok : VgTokenizer) (id : Int) (buf : Option Nat) :
    tok.decodeStores id buf = (written buf (tok.piece id) 0, (tok.piece id).length) := by
  unfold VgTokenizer.decodeStores VgTokenizer.piece
  cases tok.textOf id with
  | none => rfl
  | some text =>
    dsimp only [Option.map_some, Option.getD_some]
    unfold VgTokenizer.render written
    split_ifs with hbyte hcount
    · rw [byteStores_eq, Nat.zero_add]
    · rw [spmStores_eq, Nat.zero_add]
      rcases hcount with rfl | rfl
      · rw [putFrom_none]
        rfl
      · rw [putFrom_zero]
        rfl
    · rw [spmStores_eq, Nat.zero_add]

/-- The buffer ends with a prefix of the text and a terminator, and nothing is written behind it. -/
structure WritesPrefix (full : List UInt8) (buf : Option Nat) (stores : List (Nat × UInt8)) :
    Prop where
  inside : ∀ s ∈ stores, ∃ len, buf = some len ∧ s.1 < len
  cells : ∀ len, buf = some (len + 1) → ∀ m i, storeAll m stores i =
    if i < min full.length len then (full[i]?).getD 0
    else if i = min full.length len then 0 else m i

theorem decodeStores_writes (tok : VgTokenizer) (id : Int) (buf : Option Nat) :
    WritesPrefix (tok.piece id) buf (tok.decodeStores id buf).1 := by
  rw [decodeStores_eq]
  constructor
  case inside => exact fun s hs => lt_of_mem_written hs
  case cells =>
    rintro len rfl m i
    exact storeAll_written m len

/-- The bytes that the stores leave are those of `decode`. -/
theorem decodeStores_decode (tok : VgTokenizer) (id : Int) (len : Nat) (m : Nat → UInt8) {i : Nat}
    (hi : i < (tok.decode id (some len)).1.length) :
    (tok.decode id (some len)).1[i]? = some (storeAll m (tok.decodeStores id (some len)).1 i) := by
  rw [decode_eq, Option.getD_some] at hi ⊢
  dsimp only at hi ⊢
  unfold terminated at hi ⊢
  cases len with
  | zero => cases hi
  | succ len =>
    rw [if_neg (Nat.succ_ne_zero len), List.length_append, List.length_singleton,
      List.length_take, Nat.add_sub_cancel] at hi
    rw [if_neg (Nat.succ_ne_zero len), Nat.add_sub_cancel,
      (decodeStores_writes tok id _).cells len rfl]
    by_cases hin : i < min (tok.piece id).length len
    · rw [if_pos hin, List.getElem?_append_left (by rw [List.length_take]; omega),
        List.getElem?_take_of_lt (by omega), List.getElem?_eq_getElem (by omega)]
      rfl
    · have hend : i = ((tok.piece id).take len).length := by
        rw [List.length_take]
        omega
      rw [if_neg hin, if_pos (by omega), hend, List.getElem?_concat_length]

/-- The buffer is filled with these bytes, and has room for more. -/
structure Filled (b : VgTokenizer.SequenceBuffer) (full : List UInt8) : Prop where
  pos : b.pos = full.length
  room : full.length < b.block.cap
  holds : b.block.Holds full

variable {b : VgTokenizer.SequenceBuffer} {full : List UInt8}

theorem Filled.decodeInto (h : Filled b full) (tok : VgTokenizer) (junk : Nat → UInt8) (id : Int) :
    ∃ b', tok.decodeInto junk b id = some b' ∧ Filled b' (full ++ tok.piece id) := by
  unfold VgTokenizer.decodeInto
  simp only [decodeStores_eq, h.pos]
  generalize hblock : (if b.block.cap ≤ full.length + (tok.piece id).length + 1 then
    b.block.realloc junk ((full.length + (tok.piece id).length + 1) * 2) else b.block) = block
  have hroom := h.room
  have hgrown : full.length + (tok.piece id).length < block.cap ∧ block.Holds full := by
    rw [← hblock]
    split_ifs with hfull
    · refine ⟨?_, h.holds.realloc junk (by omega)⟩
      unfold Block.realloc
      dsimp only
      omega
    · exact ⟨by omega, h.holds⟩
  obtain ⟨block', hstores, hcap, hholds⟩ := hgrown.2.append 0 hgrown.1
  rw [hstores, Option.map_some]
  refine ⟨_, rfl, ⟨List.length_append.symm, ?_, hholds⟩⟩
  rw [List.length_append]
  dsimp only
  rw [hcap]
  exact hgrown.1

theorem Filled.decodeAll (h : Filled b full) (tok : VgTokenizer) (junk : Nat → Nat → UInt8)
    (ids : List Int) (k : Nat) :
    ∃ b', (ids.zipIdx k).foldlM (fun b id => tok.decodeInto (junk (id.2 + 1)) b id.1) b = some b' ∧
      Filled b' (full ++ (ids.map tok.piece).flatten) := by
  induction ids generalizing b full k with
  | nil => exact ⟨b, rfl, by simpa using h⟩
  | cons id ids ih =>
    obtain ⟨b₁, hfirst, hfilled⟩ := h.decodeInto tok (junk (k + 1)) id
    obtain ⟨b', hrest, hall⟩ := ih hfilled (k + 1)
    refine ⟨b', ?_, ?_⟩
    · rw [List.zipIdx_cons, List.foldlM_cons, hfirst]
      exact hrest
    · rwa [List.map_cons, List.flatten_cons, ← List.append_assoc]

/-- The pieces of the tokens, less the space of a mark at the start, where tokens have marks. -/
def VgTokenizer.sequenceText (tok : VgTokenizer) (ids : List Int) : List UInt8 :=
  let bytes := (ids.map tok.piece).flatten
  if tok.gpt2ByteMap = false ∧ tok.firstMarked ids = true then bytes.tail else bytes

/-- A mark at the start is a space in the output. -/
theorem head_of_firstMarked {ids : List Int} (hspm : tok.gpt2ByteMap = false)
    (hmarked : tok.firstMarked ids = true) :
    ∃ rest, (ids.map tok.piece).flatten = 32 :: rest := by
  unfold VgTokenizer.firstMarked at hmarked
  cases ids with
  | nil => cases hmarked
  | cons id ids =>
    rw [List.head?_cons, Option.bind_some] at hmarked
    cases htext : tok.textOf id with
    | none =>
      rw [htext] at hmarked
      cases hmarked
    | some text =>
      rw [htext, Option.any_some] at hmarked
      have hprefix := List.isPrefixOf_iff_prefix.1 hmarked
      obtain ⟨c, s, rfl⟩ : ∃ c s, text = c :: s := by
        obtain ⟨t, rfl⟩ := hprefix
        exact ⟨_, _, rfl⟩
      have hpiece : tok.piece id = 32 :: spmRender (s.drop 2) := by
        unfold VgTokenizer.piece VgTokenizer.render
        rw [htext, hspm, Option.map_some, Option.getD_some, if_neg (by decide), spmRender_cons,
          if_pos hprefix]
      rw [List.map_cons, List.flatten_cons, hpiece]
      exact ⟨_, rfl⟩

theorem stripPrefix_holds {ids : List Int} (hpos : b.pos = (ids.map tok.piece).flatten.length)
    (hholds : b.block.Holds ((ids.map tok.piece).flatten ++ [0])) :
    (tok.stripPrefix ids b).pos = (tok.sequenceText ids).length ∧
      (tok.stripPrefix ids b).block.Holds (tok.sequenceText ids ++ [0]) := by
  unfold VgTokenizer.stripPrefix VgTokenizer.sequenceText
  dsimp only
  by_cases hmarked : tok.gpt2ByteMap = false ∧ tok.firstMarked ids = true
  · obtain ⟨rest, hrest⟩ := head_of_firstMarked hmarked.1 hmarked.2
    rw [hrest] at hpos hholds ⊢
    rw [List.length_cons] at hpos
    have hfirst : b.block.cell 0 = 32 := (Option.some.inj (hholds.cells 0 (by simp))).symm
    rw [if_pos ⟨hmarked.1, by omega, hfirst, hmarked.2⟩, if_pos hmarked, List.tail_cons]
    refine ⟨by dsimp only; omega, ⟨?_, fun i hi => ?_⟩⟩
    · have hroom := hholds.room
      simp only [List.length_append, List.length_cons] at hroom ⊢
      omega
    · rw [List.length_append, List.length_singleton] at hi
      have hcell := hholds.cells (i + 1) (by simp; omega)
      rw [List.cons_append, List.getElem?_cons_succ] at hcell
      dsimp only
      rw [if_pos (by omega), hcell]
  · rw [if_neg fun h => hmarked ⟨h.1, h.2.2.2⟩, if_neg hmarked]
    exact ⟨hpos, hholds⟩

theorem decodeSequenceInto_holds (tok : VgTokenizer) (junk : Nat → Nat → UInt8) (ids : List Int) :
    ∃ b, tok.decodeSequenceInto junk ids = some b ∧ b.pos = (tok.sequenceText ids).length ∧
      b.block.Holds (tok.sequenceText ids ++ [0]) := by
  have hempty : Filled ⟨⟨64 + 8 * ids.length, junk 0⟩, 0⟩ [] := by
    refine ⟨rfl, ?_, ⟨Nat.zero_le _, fun i hi => absurd hi (Nat.not_lt_zero i)⟩⟩
    dsimp only [List.length_nil]
    omega
  obtain ⟨b, hall, hfilled⟩ := hempty.decodeAll tok junk ids 0
  rw [List.nil_append] at hfilled
  obtain ⟨block, hstore, -, hholds⟩ := hfilled.holds.store_end 0 hfilled.room
  unfold VgTokenizer.decodeSequenceInto
  rw [hall, Option.bind_some, hfilled.pos, hstore, Option.map_some]
  exact ⟨_, rfl, stripPrefix_holds rfl hholds⟩

/-- A token is measured and written as its piece, as far as the buffer goes, and a list of tokens as
their pieces, in a block that has room for them. -/
theorem decode_contract (tok : VgTokenizer) :
    (∀ id buf, (tok.decodeStores id buf).2 = (tok.piece id).length ∧
      WritesPrefix (tok.piece id) buf (tok.decodeStores id buf).1) ∧
    ∀ junk ids, ∃ b, tok.decodeSequenceInto junk ids = some b ∧
      b.pos = (tok.sequenceText ids).length ∧ b.block.Holds (tok.sequenceText ids ++ [0]) := by
  constructor
  · intro id buf
    exact ⟨by rw [decodeStores_eq], decodeStores_writes tok id buf⟩
  · exact fun junk ids => decodeSequenceInto_holds tok junk ids

/-- Read as a C string, the buffer is what `decodeSequence` returns. -/
theorem decodeSequence_eq_cstr (ids : List Int) :
    tok.decodeSequence ids = cstr (tok.sequenceText ids) := by
  have hmarked : tok.startsMarked ids (ids.map tok.piece).flatten = true ↔
      tok.gpt2ByteMap = false ∧ tok.firstMarked ids = true := by
    unfold VgTokenizer.startsMarked
    change (_ && _ && tok.firstMarked ids) = true ↔ _
    rw [Bool.and_eq_true, Bool.and_eq_true, Bool.not_eq_true', beq_iff_eq]
    constructor
    · exact fun h => ⟨h.1.1, h.2⟩
    · intro h
      obtain ⟨rest, hrest⟩ := head_of_firstMarked h.1 h.2
      exact ⟨⟨h.1, by rw [hrest]; rfl⟩, h.2⟩
  rw [decodeSequence_eq, VgTokenizer.sequenceText]
  simp only [hmarked]

end Contract

end VgEngine.Tokenizer
