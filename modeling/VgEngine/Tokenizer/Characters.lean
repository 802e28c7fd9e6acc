import VgEngine.Tokenizer.Greedy

/-! Texts as characters: their normalisation, and their split at reserved tokens. -/
namespace VgEngine.Tokenizer
open Bytes Lib Utf8

/-- The mark of a space, U+2581. -/
def markChar : Char := Char.ofNat 0x2581

theorem spaceMark_eq : spaceMark = String.utf8EncodeChar markChar := by decide +kernel

/-- `normalizeSpaces` on characters. -/
def normalizeChars (removeExtra : Bool) : Bool → List Char → List Char
  | _, [] => []
  | prevSpace, c :: cs =>
    if c = ' ' ∧ removeExtra ∧ prevSpace then normalizeChars removeExtra prevSpace cs
    else (if c = ' ' then markChar else c) :: normalizeChars removeExtra (c == ' ') cs

theorem normalizeSpaces_cons (removeExtra prevSpace : Bool) (c : UInt8) (q : List UInt8) :
    normalizeSpaces removeExtra prevSpace (c :: q) =
      if c = 32 ∧ removeExtra ∧ prevSpace then normalizeSpaces removeExtra prevSpace q
      else (if c = 32 then spaceMark else [c]) ++ normalizeSpaces removeExtra (c == 32) q := rfl

theorem normalizeChars_cons (removeExtra prevSpace : Bool) (c : Char) (cs : List Char) :
    normalizeChars removeExtra prevSpace (c :: cs) =
      if c = ' ' ∧ removeExtra ∧ prevSpace then normalizeChars removeExtra prevSpace cs
      else (if c = ' ' then markChar else c) :: normalizeChars removeExtra (c == ' ') cs := rfl

theorem zero_notMem_normalizeSpaces {removeExtra prevSpace : Bool} {text : List UInt8}
    (htext : 0 ∉ text) : 0 ∉ normalizeSpaces removeExtra prevSpace text := by
  induction text generalizing prevSpace with
  | nil => exact List.not_mem_nil
  | cons c text ih =>
    rw [List.mem_cons, not_or] at htext
    rw [normalizeSpaces_cons]
    split_ifs
    · exact ih htext.2
    · rw [List.mem_append, not_or]
      exact ⟨by decide +kernel, ih htext.2⟩
    · rw [List.mem_append, List.mem_singleton, not_or]
      exact ⟨htext.1, ih htext.2⟩

/-- Bytes other than spaces are kept. -/
theorem normalizeSpaces_append {removeExtra prevSpace : Bool} {bytes rest : List UInt8}
    (hne : bytes ≠ []) (h : 32 ∉ bytes) : normalizeSpaces removeExtra prevSpace (bytes ++ rest) =
      bytes ++ normalizeSpaces removeExtra false rest := by
  induction bytes generalizing prevSpace with
  | nil => exact absurd rfl hne
  | cons b bytes ih =>
    have hb : b ≠ 32 := fun h32 => h (h32 ▸ List.mem_cons_self)
    have hbeq : (b == 32) = false := by simpa using hb
    rw [List.cons_append, normalizeSpaces_cons, if_neg (by simp [hb]), if_neg hb, hbeq]
    cases bytes with
    | nil => rfl
    | cons b' bytes =>
      rw [ih (List.cons_ne_nil b' bytes) fun h32 => h (List.mem_cons_of_mem b h32)]
      rfl

theorem space_notMem {c : Char} (hc : c ≠ ' ') : 32 ∉ String.utf8EncodeChar c := by
  intro h
  apply hc
  apply Char.ext
  apply UInt32.toNat_inj.1
  exact toNat_eq_of_mem (by decide) h

theorem normalizeSpaces_utf8 (removeExtra prevSpace : Bool) (cs : List Char) :
    normalizeSpaces removeExtra prevSpace (utf8 cs) =
      utf8 (normalizeChars removeExtra prevSpace cs) := by
  induction cs generalizing prevSpace with
  | nil => rfl
  | cons c cs ih =>
    rw [utf8_cons]
    by_cases hc : c = ' '
    · subst hc
      have hspace : String.utf8EncodeChar ' ' = [32] := by decide +kernel
      rw [hspace, List.singleton_append, normalizeSpaces_cons, normalizeChars_cons]
      simp only [true_and, if_true, BEq.rfl]
      split_ifs
      · exact ih prevSpace
      · rw [ih, utf8_cons, ← spaceMark_eq]
    · obtain ⟨first, rest, hform⟩ := encodeChar_form c
      have hbeq : (c == ' ') = false := by simpa using hc
      rw [normalizeSpaces_append (by simp [hform.eq]) (space_notMem hc), ih, normalizeChars_cons,
        if_neg (by simp [hc]), if_neg hc, hbeq, utf8_cons]

namespace VgTokenizer

variable {tok : VgTokenizer} {cs : List Char}

/-- The characters of a normalised text. -/
def spmChars (tok : VgTokenizer) (cs : List Char) : List Char :=
  (if tok.addDummyPrefix then [markChar] else []) ++ normalizeChars tok.removeExtraWs true cs

theorem spmNormalize_utf8 (tok : VgTokenizer) (cs : List Char) :
    tok.spmNormalize (utf8 cs) = utf8 (tok.spmChars cs) := by
  unfold spmNormalize spmChars
  rw [normalizeSpaces_utf8, utf8_append, spaceMark_eq]
  split_ifs <;> simp [utf8]

theorem zero_notMem_spmNormalize {text : List UInt8} (htext : 0 ∉ text) :
    0 ∉ tok.spmNormalize text := by
  unfold spmNormalize
  rw [List.mem_append, not_or]
  refine ⟨?_, zero_notMem_normalizeSpaces htext⟩
  split_ifs
  · decide +kernel
  · exact List.not_mem_nil

/-- The vocabulary has an entry for each character of the text as it is normalised. -/
def Covers (tok : VgTokenizer) (cs : List Char) : Prop :=
  ∀ c ∈ tok.spmChars cs, tok.Has (String.utf8EncodeChar c)

/-- Reserved tokens are made of whole characters. -/
def AddedValid (tok : VgTokenizer) : Prop := ∀ i ∈ tok.added, ∃ cs, (tok.vocab.get i).val = utf8 cs

theorem splitAdded_utf8 (h : tok.AddedValid) {fuel : Nat} {seg p : List UInt8}
    (hvalid : seg ++ p = utf8 cs) :
    ∀ s ∈ tok.splitAdded fuel seg p, ∃ ds, s.1 = utf8 ds ∧ ∀ d ∈ ds, d ∈ cs := by
  induction fuel generalizing seg p cs with
  | zero => simp [splitAdded]
  | succ fuel ih =>
    unfold splitAdded
    cases p with
    | nil =>
      intro s hs
      rw [List.mem_singleton.1 hs]
      exact ⟨cs, by simpa using hvalid, fun _ hd => hd⟩
    | cons c q =>
      dsimp only
      cases hmatch : tok.matchAdded (c :: q) with
      | none =>
        apply ih
        simpa using hvalid
      | some a =>
        obtain ⟨i, hi, rfl, rest, hrest⟩ := matchAdded_some hmatch
        obtain ⟨rs, hrs⟩ := h i hi
        have hlong : 2 ≤ (tok.vocab.get i).val.length := tok.added_long i hi
        -- a reserved token starts with a character, so it stands between characters
        have hstarts : ¬ Continues c := by
          cases rs with
          | nil =>
            rw [hrs] at hlong
            simp [utf8] at hlong
          | cons r rs =>
            obtain ⟨first, conts, hform⟩ := encodeChar_form r
            rw [hrs, utf8_cons, hform.eq, List.cons_append, List.cons_append] at hrest
            rw [← (List.cons.inj hrest).1]
            exact hform.starts
        obtain ⟨as, bs, rfl, hseg, hp⟩ := utf8_split hvalid rfl hstarts
        have hprefix : rs <+: bs := isPrefix_of_utf8 ⟨rest, by rw [← hrs, hrest, hp]⟩
        obtain ⟨bs, rfl⟩ := hprefix
        have hdrop : (c :: q).drop (tok.vocab.get i).val.length = utf8 bs := by
          rw [hp, hrs, utf8_append, List.drop_left]
        intro s hs
        rcases List.mem_cons.1 hs with rfl | hs
        · exact ⟨as, hseg, fun d hd => List.mem_append_left _ hd⟩
        · rw [hdrop] at hs
          obtain ⟨ds, hds, hsub⟩ := ih (List.nil_append _) s hs
          exact ⟨ds, hds, fun d hd => by simp [hsub d hd]⟩

/-- The segments of a text in UTF-8 are in UTF-8, and their characters are characters of it. -/
theorem segments_utf8 (h : tok.AddedValid) (cs : List Char) :
    ∀ s ∈ tok.segments (utf8 cs), ∃ ds, s.1 = utf8 ds ∧ ∀ d ∈ ds, d ∈ cs := by
  unfold segments
  split_ifs
  · intro s hs
    rw [List.mem_singleton.1 hs]
    exact ⟨cs, rfl, fun _ hd => hd⟩
  · exact splitAdded_utf8 h (List.nil_append _)

end VgTokenizer

end VgEngine.Tokenizer
