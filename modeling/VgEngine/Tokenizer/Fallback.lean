import VgEngine.Tokenizer.Spaces

/-! Byte tokens: bytes that no other entry covers are to be encoded by the entries named after
them, and these are to be decoded to the bytes. -/
namespace VgEngine.Tokenizer
open Bytes Lib Utf8 Gguf Model

def hexCharacter (n : Nat) : UInt8 := if n < 10 then UInt8.ofNat (48 + n) else UInt8.ofNat (55 + n)

/-- `<0xNN>` -/
def byteToken (b : UInt8) : List UInt8 :=
  txt "<0x" ++ [hexCharacter (b.toNat / 16), hexCharacter (b.toNat % 16)] ++ txt ">"

section Bytes

variable {tok : VgTokenizer} {found : List (Option Nat × List UInt8)} {text : List UInt8} {b : UInt8}

/-- A byte token is rendered as the six characters of its name. -/
theorem spmRender_byteToken (b : UInt8) : spmRender (byteToken b) = byteToken b := by
  have hall : ∀ n < 256, spmRender (byteToken (UInt8.ofNat n)) = byteToken (UInt8.ofNat n) := by
    decide +kernel
  simpa using hall b.toNat b.toNat_lt

theorem piece_byteToken (hspm : tok.gpt2ByteMap = false) {id : Int}
    (h : tok.textOf id = some (byteToken b)) : tok.piece id = byteToken b := by
  unfold VgTokenizer.piece VgTokenizer.render
  rw [h, hspm]
  exact spmRender_byteToken b

/-- Where no entry starts with a character of the text, the character is passed over as unknown,
whatever byte tokens there are. -/
theorem VgTokenizer.Greedy.unknown {c : Char} {cs : List Char}
    (h : VgTokenizer.Greedy tok (utf8 (c :: cs)) found)
    (hnone : ∀ t, tok.Has t → String.utf8EncodeChar c <+: t → ¬ t <+: utf8 (c :: cs)) :
    ∃ rest, found = (none, String.utf8EncodeChar c) :: rest ∧
      VgTokenizer.Greedy tok (utf8 cs) rest := by
  obtain ⟨first, conts, hform⟩ := encodeChar_form c
  have hneed : needCp first = (String.utf8EncodeChar c).length := by
    rw [needCp_eq, hform.length, hform.eq, List.length_cons]
  have hutf8 : utf8 (c :: cs) = first :: (conts ++ utf8 cs) := by
    rw [utf8_cons, hform.eq, List.cons_append]
  have htake : (first :: (conts ++ utf8 cs)).take (needCp first) = String.utf8EncodeChar c := by
    rw [← hutf8, utf8_cons, hneed, List.take_left]
  have hdrop : (first :: (conts ++ utf8 cs)).drop (needCp first) = utf8 cs := by
    rw [← hutf8, utf8_cons, hneed, List.drop_left]
  rw [hutf8] at h hnone
  cases h with
  | miss hmatch hroom hrest =>
    rw [htake]
    rw [hdrop] at hrest
    exact ⟨_, rfl, hrest⟩
  | @hit _ _ id len rest hmatch hrest =>
    have hfound : VgTokenizer.IsMatch tok (first :: (conts ++ utf8 cs)) (needCp first) id len :=
      .of_longestMatch hmatch
    refine absurd (List.take_prefix len _) (hnone _ ?_ ?_)
    · exact VgTokenizer.findTokenN_isSome.1 (by rw [hfound.find]; rfl)
    · rw [← htake]
      exact List.take_prefix_take_left hfound.need_le

/-- A SentencePiece vocabulary with all byte tokens. -/
structure ByteTokens (tok : VgTokenizer) : Prop where
  spm : tok.gpt2ByteMap = false
  bytes : ∀ b, tok.Has (byteToken b)

/-- No byte of the text is encoded as unknown, and each byte token is decoded to its byte. -/
structure KeepsBytes (tok : VgTokenizer) (text : List UInt8) : Prop where
  known : ∀ s ∈ tok.segments text, tok.Encoded s.1 →
    ∃ found, VgTokenizer.Greedy tok (tok.spmNormalize s.1) found ∧ ∀ p ∈ found, p.1 ≠ none
  decoded : ∀ id b, tok.textOf id = some (byteToken b) →
    tok.decode id (some 2) = ([b, 0], 1)

/-- Byte tokens are kept by no tokenizer and in no text: they are decoded to their names. -/
theorem not_keepsBytes (h : ByteTokens tok) (text : List UInt8) : ¬ KeepsBytes tok text := by
  intro hkeeps
  obtain ⟨i, hi⟩ := h.bytes 10
  have htext : tok.textOf (i : Nat) = some (byteToken 10) := by
    unfold VgTokenizer.textOf
    rw [if_neg (by simp), Int.toNat_natCast, hi]
  have hlength : (tok.decode (i : Nat) (some 2)).2 = 6 := by
    rw [decode_eq, piece_byteToken h.spm htext]
    decide +kernel
  rw [hkeeps.decoded _ _ htext] at hlength
  exact absurd hlength (by decide)

end Bytes

section Example

/-- A vocabulary of the byte tokens and one letter. -/
def bytesTokenizer : VgTokenizer where
  vocab := .ofBytes (txt "<unk>") :: ((List.range 256).map fun n => .ofBytes (byteToken (UInt8.ofNat n))) ++
    [.ofBytes spaceMark, .ofBytes (txt "a")]
  merges := []
  bosId := -1
  eosId := -1
  addBos := false
  gpt2ByteMap := false
  addDummyPrefix := false
  removeExtraWs := false
  added := []
  added_long := by simp

theorem byteTokens_bytes : ByteTokens bytesTokenizer := by
  constructor
  case spm => rfl
  case bytes =>
    intro b
    have hall : ∀ n < 256, bytesTokenizer.tokenText (n + 1) = some (byteToken (UInt8.ofNat n)) := by
      decide +kernel
    exact ⟨b.toNat + 1, by simpa using hall b.toNat b.toNat_lt⟩

theorem not_keepsBytes_a : ¬ KeepsBytes bytesTokenizer (txt "a") :=
  not_keepsBytes byteTokens_bytes _

/-- The character of the bytes C3 A9 is encoded as the unknown token. -/
theorem bytesTokenizer_loses :
    ¬ ∀ (tok : VgTokenizer) (text : List UInt8), ByteTokens tok → KeepsBytes tok text := by
  intro hclaim
  have hsegments : ([0xC3, 0xA9], none) ∈ bytesTokenizer.segments [0xC3, 0xA9] :=
    List.mem_singleton_self _
  obtain ⟨found, hgreedy, hknown⟩ :=
    (hclaim bytesTokenizer [0xC3, 0xA9] byteTokens_bytes).known _ hsegments (Or.inl rfl)
  have hnorm : bytesTokenizer.spmNormalize [0xC3, 0xA9] = utf8 [Char.ofNat 0xE9] := by
    decide +kernel
  rw [hnorm] at hgreedy
  obtain ⟨rest, rfl, -⟩ := hgreedy.unknown fun t ht hprefix _ => by
    have hother : ∀ s ∈ bytesTokenizer.vocab, ¬ String.utf8EncodeChar (Char.ofNat 0xE9) <+: s.val := by
      decide +kernel
    obtain ⟨i, hi⟩ := ht
    obtain ⟨s, hs, rfl⟩ := Option.map_eq_some_iff.1 hi
    exact hother s (List.mem_of_getElem? hs) hprefix
  exact hknown _ List.mem_cons_self rfl

end Example

end VgEngine.Tokenizer
