import VgEngine.Tokenizer.ArrayText
import VgEngine.Tokenizer.Cursor
import VgEngine.Tokenizer.MergeBuffer
import VgEngine.Tokenizer.Spaces

/-! The texts that are encoded within the buffers of the encoder. For these the ids and their count
depend on nothing but the text, and the count is bounded by its length; for all others the encoder
runs out of a buffer. -/
namespace VgEngine.Tokenizer
open Bytes Lib Utf8 Gguf Model RankedMerge

namespace VgTokenizer

/-- A segment that is encoded within the buffers. -/
def SegmentFits (tok : VgTokenizer) (seg : List UInt8) : Prop :=
  if tok.gpt2ByteMap then ∀ word ∈ words (seg.length + 1) seg, tok.WordFits word
  else Whole tok (tok.spmNormalize seg)

/-- All segments of the text are that are encoded. -/
def EncodeFits (tok : VgTokenizer) (text : List UInt8) : Prop :=
  ∀ s ∈ tok.segments text, tok.Encoded s.1 → tok.SegmentFits s.1

def bodyIds (tok : VgTokenizer) (seg : List UInt8) : List Int :=
  if tok.gpt2ByteMap then (tok.bytePieces seg).map tok.idOf else tok.greedySegment seg

/-- The full encoding of a text. -/
def encodedIds (tok : VgTokenizer) (text : List UInt8) : List Int :=
  idsOf (tok.segmentIds tok.bodyIds) (tok.segments text)

variable {tok : VgTokenizer} {seg text : List UInt8}

theorem encodeBody_emits (hfits : tok.SegmentFits seg) (hseg : 0 ∉ seg) (junk : Nat → UInt8) :
    Emits (tok.encodeBody junk seg) (tok.bodyIds seg) := by
  unfold SegmentFits at hfits
  unfold encodeBody bodyIds
  split_ifs at hfits ⊢ with hbyte
  · exact encodeWords_emits (Nat.lt_succ_self _) hfits
  · obtain ⟨found, hfound⟩ := hfits.exists_greedy
    have hfuel : (tok.spmNormalize seg).length < (tok.normBlock junk seg).length + 1 := by
      unfold normBlock
      dsimp only
      rw [List.length_append]
      omega
    unfold greedySegment
    rw [hfound.eq (Nat.le_refl _)]
    exact hfound.emits (zero_notMem_spmNormalize hseg) _ hfuel

/-- On a heap without a zero byte, a segment that does not fit cannot be encoded. -/
theorem encodeBody_fails (hfits : ¬ tok.SegmentFits seg) (hseg : 0 ∉ seg) :
    Fails (tok.encodeBody (fun _ => 97) seg) := by
  intro b
  unfold SegmentFits at hfits
  unfold encodeBody
  split_ifs at hfits ⊢ with hbyte
  · push Not at hfits
    obtain ⟨word, hword, hover⟩ := hfits
    exact encodeWords_fails hword hover b
  · refine encodePieces_fails hfits (zero_notMem_spmNormalize hseg) ?_ b
    rw [List.mem_map]
    rintro ⟨i, -, hi⟩
    exact absurd hi (by decide)

theorem zero_notMem_segments (htext : 0 ∉ text) : ∀ s ∈ tok.segments text, 0 ∉ s.1 := by
  intro s hs hzero
  apply htext
  rw [← segments_flatten tok text]
  exact List.mem_flatMap.2 ⟨s, hs, List.mem_append_left _ hzero⟩

/-- A text that fits is encoded whatever the heap and the caller's array hold. -/
theorem encodeImpl_fits (hfits : tok.EncodeFits text) (htext : 0 ∉ text)
    (junk : Nat → Nat → UInt8) :
    Emits (tok.encodeImpl (fun n => tok.encodeBody (junk n)) text) (tok.encodedIds text) := by
  apply encodeImpl_emits
  · intro hne
    unfold segmentIds
    rw [if_pos ⟨hne, rfl⟩]
  · intro s hs hencoded n
    have hskip : ¬ (tok.added ≠ [] ∧ s.1 = []) := by
      rintro ⟨hne, hnil⟩
      exact hencoded.elim hne fun h => h hnil
    unfold segmentIds
    rw [if_neg hskip]
    exact encodeBody_emits (hfits s hs hencoded) (zero_notMem_segments htext s hs) (junk n)

theorem encode_fits (hfits : tok.EncodeFits text) (htext : 0 ∉ text) (junk : Nat → Nat → UInt8)
    (room : Nat) : tok.encode junk text room =
      some ⟨room, (tok.encodedIds text).take room, (tok.encodedIds text).length⟩ :=
  (encodeImpl_fits hfits htext junk).written room

theorem encode_none (hfits : ¬ tok.EncodeFits text) (htext : 0 ∉ text) (room : Nat) :
    tok.encode (fun _ _ => 97) text room = none := by
  unfold EncodeFits at hfits
  push Not at hfits
  obtain ⟨s, hs, hencoded, hover⟩ := hfits
  exact encodeImpl_fails hs hencoded
    (fun _ => encodeBody_fails hover (zero_notMem_segments htext s hs)) _

/-- A SentencePiece text in UTF-8 fits, whatever the vocabulary holds. -/
theorem encodeFits_spm (hspm : tok.gpt2ByteMap = false) (hadded : tok.AddedValid)
    (cs : List Char) : tok.EncodeFits (utf8 cs) := by
  intro s hs _
  obtain ⟨ds, hds, -⟩ := segments_utf8 hadded cs s hs
  unfold SegmentFits
  rw [hspm, if_neg (by decide), hds, spmNormalize_utf8]
  exact whole_utf8 List.suffix_rfl

/-- The pairs that byte-level encoding joins fit into the buffer that they are joined in, exactly
for the texts whose words do. -/
theorem merges_fit_iff (tok : VgTokenizer) (text : CString) :
    (tok.gpt2ByteMap = true → ∀ junk room, (tok.encode junk text.val room).isSome) ↔
      (tok.gpt2ByteMap = true → tok.EncodeFits text.val) := by
  refine forall_congr' fun _ => ?_
  constructor
  · intro hsome
    by_contra hover
    have hnone := hsome (fun _ _ => 97) 0
    rw [encode_none hover text.property] at hnone
    cases hnone
  · intro hfits junk room
    rw [encode_fits hfits text.property]
    rfl

section Doubling

theorem words_run {c : UInt8} (hc : tcAlpha c = true) (n fuel : Nat) :
    words (fuel + 1) (List.replicate (n + 1) c) = [List.replicate (n + 1) c] := by
  have hspace : (some c == some (32 : UInt8)) = false := by
    have hne : c ≠ 32 := by
      rintro rfl
      exact absurd hc (by decide)
    simpa using hne
  have hrun : wordRun (List.replicate (n + 1) c) = List.replicate (n + 1) c := by
    unfold wordRun
    rw [List.head?_replicate, if_neg (Nat.succ_ne_zero n)]
    dsimp only [Option.getD_some]
    rw [if_pos hc, List.takeWhile_replicate, if_pos hc]
  have hrest : words fuel [] = [] := by
    cases fuel <;> rfl
  rw [words, if_neg (by simp)]
  dsimp only
  rw [List.head?_replicate, if_neg (Nat.succ_ne_zero n), hspace]
  simp only [Bool.false_eq_true, if_false, List.nil_append]
  rw [hrun, List.drop_length, hrest]

theorem doubling_not_fits (hmerges : tok.merges = doublingRules) (hbyte : tok.gpt2ByteMap = true)
    (hadded : tok.added = []) : ¬ tok.EncodeFits (letters 1024).val := by
  intro hfits
  have hsegment : ((letters 1024).val, none) ∈ tok.segments (letters 1024).val := by
    unfold segments
    rw [if_pos hadded]
    exact List.mem_singleton_self _
  have hword := hfits _ hsegment (Or.inl hadded)
  unfold SegmentFits at hword
  rw [if_pos hbyte] at hword
  have hletters : (letters 1024).val = List.replicate (1023 + 1) 97 := rfl
  dsimp only at hword
  rw [hletters, words_run (by decide)] at hword
  exact doubling_not_wordFits hmerges (hword _ (List.mem_singleton_self _))

/-- The rules as they stand in a file. -/
def doublingEntries : List CString :=
  (List.range 10).map fun k => ⟨(letters (2 ^ k)).val ++ 32 :: (letters (2 ^ k)).val, by
    rw [List.mem_append, List.mem_cons, not_or, not_or]
    exact ⟨(letters _).property, by decide, (letters _).property⟩⟩

/-- A file of a byte-level model with these rules. -/
def doublingFile (env : Libc) : VgGguf where
  fileSize := 4096
  dataBase := 0
  tensorCount := 0
  tensors := none
  metas := [
    (txt "tokenizer.ggml.model", txt "gpt2"),
    (txt "tokenizer.ggml.tokens", txt "[\"\\u0120\"]"),
    (txt "tokenizer.ggml.merges", (stringArray doublingEntries).text env escape)]
  tensorHash := none
  metaHash := none

/-- Without token types, a byte-level tokenizer has no reserved tokens. -/
theorem tokenizerLoad_byteLevel {g : VgGguf} {tokens merges : List UInt8}
    (htokens : metaText g "tokenizer.ggml.tokens" = some tokens)
    (hmodel : metaText g "tokenizer.ggml.model" = some (txt "gpt2"))
    (hvocab : (arrayStrings tokens).any (fun s => hasByteFallback s.val.length s.val) = true)
    (hmerges : metaText g "tokenizer.ggml.merges" = some merges)
    (htypes : metaText g "tokenizer.ggml.token_type" = none) :
    ∃ tok, tokenizerLoad g = .ok tok ∧ tok.merges = (arrayStrings merges).filterMap mergeEntry ∧
      tok.gpt2ByteMap = true ∧ tok.added = [] := by
  have hne : arrayStrings tokens ≠ [] := by
    intro hnil
    rw [hnil] at hvocab
    cases hvocab
  unfold tokenizerLoad
  rw [htokens]
  dsimp only
  rw [if_neg hne]
  refine ⟨_, rfl, ?_, ?_, ?_⟩
  · dsimp only
    rw [hmerges]
    rfl
  · dsimp only
    rw [decide_eq_true (Or.inl hmodel), Bool.true_and, hvocab]
  · dsimp only
    rw [htypes, List.filter_eq_nil_iff]
    intro i hi
    simp [isAdded]

theorem load_doublingFile (env : Libc) : ∃ tok, tokenizerLoad (doublingFile env) = .ok tok ∧
    tok.merges = doublingRules ∧ tok.gpt2ByteMap = true ∧ tok.added = [] := by
  have hrules : doublingEntries.filterMap mergeEntry = doublingRules := by decide +kernel
  have hindex : findMetaIndex (doublingFile env) (txt "tokenizer.ggml.merges") = some 2 := by
    rfl
  have hmerges : metaText (doublingFile env) "tokenizer.ggml.merges" =
      some ((stringArray doublingEntries).text env escape) := by
    unfold metaText ggufMeta
    rw [hindex]
    change some (cstr ((stringArray doublingEntries).text env escape)) = _
    rw [text_stringArray, cstr_eq_self]
    rintro b hb rfl
    exact List.not_mem_cons_of_ne_of_not_mem (by decide) (not_mem_itemsEnd true doublingEntries) hb
  have htokens : metaText (doublingFile env) "tokenizer.ggml.tokens" =
      some (txt "[\"\\u0120\"]") := by rfl
  have hload := tokenizerLoad_byteLevel htokens (by rfl) (by decide +kernel) hmerges (by rfl)
  rwa [arrayStrings_text, hrules] at hload

/-- A file that is loaded, and a text of 1024 letters: the tenth rule joins 512 letters with 512. -/
theorem doubling_overruns : ¬ ∀ (g : VgGguf) (tok : VgTokenizer) (text : CString),
    tokenizerLoad g = .ok tok → tok.gpt2ByteMap = true →
      ∀ junk room, (tok.encode junk text.val room).isSome := by
  intro hclaim
  obtain ⟨tok, hload, hmerges, hbyte, hadded⟩ := load_doublingFile plainLibc
  have hsome := hclaim _ tok (letters 1024) hload hbyte (fun _ _ => 97) 0
  rw [encode_none (doubling_not_fits hmerges hbyte hadded) (letters 1024).property] at hsome
  cases hsome

end Doubling

/-- The count does not depend on the caller's array or on the heap, and what is written of the full
encoding is as much as there is room for. -/
def Truncates (tok : VgTokenizer) (text : List UInt8) : Prop :=
  ∃ ids : List Int, ∀ junk room,
    tok.encode junk text room = some ⟨room, ids.take room, ids.length⟩

theorem not_truncates (hover : ¬ tok.EncodeFits text) (htext : 0 ∉ text) :
    ¬ tok.Truncates text := by
  rintro ⟨ids, hids⟩
  have hsome := hids (fun _ _ => 97) 0
  rw [encode_none hover htext] at hsome
  cases hsome

/-- An encoding is truncated as it should be exactly when the text fits. -/
theorem truncates_iff (tok : VgTokenizer) (text : CString) :
    tok.Truncates text.val ↔ tok.EncodeFits text.val := by
  constructor
  · intro htruncates
    by_contra hover
    exact not_truncates hover text.property htruncates
  · intro hfits
    exact ⟨tok.encodedIds text.val, encode_fits hfits text.property⟩

theorem cut_not_fits : ¬ overlapTokenizer.EncodeFits cutText.val := by
  intro hfits
  exact cut_not_whole (hfits (cutText.val, none) (List.mem_singleton_self _) (Or.inl rfl))

theorem cut_not_truncates : ¬ ∀ (tok : VgTokenizer) (text : CString), tok.Truncates text.val := by
  intro hclaim
  exact not_truncates cut_not_fits cutText.property (hclaim overlapTokenizer cutText)

section Count

theorem length_utf8 (cs : List Char) : cs.length ≤ (utf8 cs).length := by
  induction cs with
  | nil => exact Nat.zero_le _
  | cons c cs ih =>
    obtain ⟨first, rest, hform⟩ := encodeChar_form c
    rw [utf8_cons, hform.eq, List.length_append, List.length_cons, List.length_cons]
    omega

theorem length_normalizeChars (removeExtra prevSpace : Bool) (cs : List Char) :
    (normalizeChars removeExtra prevSpace cs).length ≤ cs.length := by
  induction cs generalizing prevSpace with
  | nil => exact Nat.le_refl _
  | cons c cs ih =>
    rw [normalizeChars_cons]
    split_ifs
    · exact (ih _).trans (Nat.le_succ _)
    · exact Nat.succ_le_succ (ih _)
    · exact Nat.succ_le_succ (ih _)

theorem length_greedySegment (hvalid : VocabValid tok) (ds : List Char) :
    (tok.greedySegment (utf8 ds)).length ≤ ds.length + 1 := by
  obtain ⟨found, hfound, hids⟩ := greedy_norm tok ds
  obtain ⟨groups, hflatten, hgroupIds, hgroups⟩ :=
    greedy_groups hvalid hfound (spmNormalize_utf8 tok ds)
  have hcount : groups.length ≤ groups.flatten.length := by
    clear hflatten hgroupIds
    induction groups with
    | nil => exact Nat.le_refl _
    | cons g groups ih =>
      have hrest := ih fun g' hg' => hgroups g' (List.mem_cons_of_mem g hg')
      have hpos := List.length_pos_iff.2 (hgroups g List.mem_cons_self).1
      rw [List.flatten_cons, List.length_append, List.length_cons]
      omega
  have hchars : (tok.spmChars ds).length ≤ ds.length + 1 := by
    have hnorm := length_normalizeChars tok.removeExtraWs true ds
    unfold spmChars
    rw [List.length_append]
    split_ifs
    · rw [List.length_singleton]
      omega
    · rw [List.length_nil]
      omega
  rw [hids, hgroupIds, List.length_map]
  rw [hflatten] at hcount
  exact hcount.trans hchars

theorem length_wordPieces (tok : VgTokenizer) (word : List UInt8) :
    (tok.wordPieces word).length ≤ word.length := by
  have hmerged : (tok.wordPieces word).length ≤ (word.map encodeByteFwd).length :=
    merged_length _
  rwa [List.length_map] at hmerged

theorem length_bytePieces (tok : VgTokenizer) (seg : List UInt8) :
    (tok.bytePieces seg).length ≤ seg.length := by
  have hwords := words_flatten (Nat.lt_succ_self seg.length)
  unfold bytePieces
  generalize words (seg.length + 1) seg = ws at hwords ⊢
  rw [← hwords]
  clear hwords
  induction ws with
  | nil => exact Nat.le_refl _
  | cons word ws ih =>
    have hword := length_wordPieces tok word
    rw [List.flatMap_cons, List.flatten_cons, List.length_append, List.length_append]
    omega

theorem length_bodyIds (hvalid : VocabValid tok) (ds : List Char) :
    (tok.bodyIds (utf8 ds)).length ≤ (utf8 ds).length + 1 := by
  unfold bodyIds
  split_ifs
  · rw [List.length_map]
    exact (length_bytePieces tok _).trans (Nat.le_succ _)
  · exact (length_greedySegment hvalid ds).trans (Nat.succ_le_succ (length_utf8 ds))

/-- Twice the bytes is enough where it is for each segment with the reserved token behind it. -/
theorem length_idsOf {f : List UInt8 → List Int} {segs : List (List UInt8 × Option (Nat × Nat))}
    (hf : ∀ s ∈ segs, (f s.1).length ≤ 2 * s.1.length)
    (hadded : ∀ s ∈ segs, ∀ a, s.2 = some a → 1 ≤ (tok.addedText (some a)).length) :
    (idsOf f segs).length ≤ 2 * (segs.flatMap fun s => s.1 ++ tok.addedText s.2).length := by
  induction segs with
  | nil => exact Nat.zero_le _
  | cons s segs ih =>
    have hrest := ih (fun s' hs' => hf s' (List.mem_cons_of_mem s hs'))
      fun s' hs' => hadded s' (List.mem_cons_of_mem s hs')
    have hfirst := hf s List.mem_cons_self
    have hbehind : (s.2.map fun a => ((a.1 : Nat) : Int)).toList.length ≤
        2 * (tok.addedText s.2).length := by
      cases ha : s.2 with
      | none => exact Nat.zero_le _
      | some a =>
        have hlong := hadded s List.mem_cons_self a ha
        rw [Option.map_some, Option.toList_some, List.length_singleton]
        omega
    have hsplit : idsOf f (s :: segs) =
        f s.1 ++ (s.2.map fun a => ((a.1 : Nat) : Int)).toList ++ idsOf f segs := List.flatMap_cons
    rw [hsplit, List.flatMap_cons]
    simp only [List.length_append]
    omega

/-- At most two ids for each byte, and one for a dummy prefix. -/
theorem length_encodedIds (hvalid : VocabValid tok) (cs : List Char) :
    (tok.encodedIds (utf8 cs)).length ≤ 2 * (utf8 cs).length + 1 := by
  have hadded : tok.AddedValid := fun i _ => hvalid _ ⟨i.val, by simp [tokenText]⟩
  by_cases hnone : tok.added = []
  · have hsegments : tok.segments (utf8 cs) = [(utf8 cs, none)] := by
      unfold segments
      rw [if_pos hnone]
    have hbody := length_bodyIds hvalid cs
    unfold encodedIds idsOf segmentIds
    rw [hsegments]
    simp only [List.flatMap_cons, List.flatMap_nil, Option.map_none, Option.toList_none,
      List.append_nil]
    rw [if_neg fun h => h.1 hnone]
    omega
  · have hsegment : ∀ s ∈ tok.segments (utf8 cs),
        (tok.segmentIds tok.bodyIds s.1).length ≤ 2 * s.1.length := by
      intro s hs
      obtain ⟨ds, hds, -⟩ := segments_utf8 hadded cs s hs
      unfold segmentIds
      split_ifs with hskip
      · exact Nat.zero_le _
      · have hbody := length_bodyIds hvalid ds
        have hpos : 0 < s.1.length := List.length_pos_iff.2 fun hnil => hskip ⟨hnone, hnil⟩
        rw [hds] at hpos ⊢
        omega
    have hbehind : ∀ s ∈ tok.segments (utf8 cs), ∀ a, s.2 = some a →
        1 ≤ (tok.addedText (some a)).length := by
      intro s hs a ha
      obtain ⟨i, hi, rfl⟩ := segments_added tok _ s hs a ha
      have hlong : 2 ≤ (tok.vocab.get i).val.length := tok.added_long i hi
      have hadd : tok.addedText (some (i.val, (tok.vocab.get i).val.length)) =
          (tok.vocab.get i).val := by
        simp [addedText, tokenText]
      rw [hadd]
      omega
    have hsum := length_idsOf hsegment hbehind
    rw [segments_flatten] at hsum
    exact hsum.trans (Nat.le_succ _)

/-- `vg_tokenizer_encode_decode`, into an array of four ids for each byte and 64 more. The ids that
the count says are read, whether they were written or not. -/
def encodeDecode (tok : VgTokenizer) (junk : Nat → Nat → UInt8) (text : List UInt8) :
    Option (List UInt8) :=
  (tok.encode junk text (text.length * 4 + 64)).bind fun got =>
    if got.n ≤ got.written.length then some (tok.decodeSequence (got.written.take got.n)) else none

/-- The count is within that array, so that only ids that were written are decoded. -/
def CountBounded (tok : VgTokenizer) (text : List UInt8) : Prop :=
  ∀ junk, ∃ got, tok.encode junk text (text.length * 4 + 64) = some got ∧
    got.n ≤ 4 * text.length + 64 ∧ tok.encodeDecode junk text = some (tok.decodeSequence got.written)

theorem not_countBounded (hover : ¬ tok.EncodeFits text) (htext : 0 ∉ text) :
    ¬ tok.CountBounded text := by
  intro hbounded
  obtain ⟨got, hgot, -⟩ := hbounded fun _ _ => 97
  rw [encode_none hover htext] at hgot
  cases hgot

/-- With a vocabulary in UTF-8, the count for a text in UTF-8 is bounded exactly when the text
fits, as it does without a byte-level map. -/
theorem countBounded_iff (hvalid : VocabValid tok) {cs : List Char} (hzero : Char.ofNat 0 ∉ cs) :
    tok.CountBounded (utf8 cs) ↔ (tok.gpt2ByteMap = true → tok.EncodeFits (utf8 cs)) := by
  have htext : 0 ∉ utf8 cs := zero_notMem_utf8 hzero
  constructor
  · intro hbounded _
    by_contra hover
    exact not_countBounded hover htext hbounded
  · intro hbyte junk
    have hfits : tok.EncodeFits (utf8 cs) := by
      cases hmap : tok.gpt2ByteMap with
      | true => exact hbyte hmap
      | false =>
        exact encodeFits_spm hmap (fun i _ => hvalid _ ⟨i.val, by simp [tokenText]⟩) cs
    have hlength := length_encodedIds hvalid cs
    have hwritten : (tok.encodedIds (utf8 cs)).take ((utf8 cs).length * 4 + 64) =
        tok.encodedIds (utf8 cs) := List.take_of_length_le (by omega)
    refine ⟨_, encode_fits hfits htext junk _, by dsimp only; omega, ?_⟩
    unfold encodeDecode
    rw [encode_fits hfits htext junk, Option.bind_some]
    dsimp only
    rw [hwritten, if_pos (Nat.le_refl _), List.take_length]

theorem countBounded_overlap_iff : overlapTokenizer.CountBounded (utf8 ['a', 'b', 'c']) ↔
    (overlapTokenizer.gpt2ByteMap = true → overlapTokenizer.EncodeFits (utf8 ['a', 'b', 'c'])) := by
  have hvocab : overlapTokenizer.vocab.map Subtype.val =
      [[markChar], ['a'], ['b'], ['c'], ['b', 'c'], ['a', 'b']].map utf8 := by
    decide +kernel
  exact countBounded_iff (vocabValid_of_texts hvocab) (by decide)

/-- A text of 1024 letters is not counted. -/
theorem doubling_not_counted : ¬ ∀ (tok : VgTokenizer) (cs : List Char), VocabValid tok →
    Char.ofNat 0 ∉ cs → tok.CountBounded (utf8 cs) := by
  intro hclaim
  have hvocab : doublingTokenizer.vocab.map Subtype.val = [[Char.ofNat 0x120]].map utf8 := by
    decide +kernel
  have hletters : utf8 (List.replicate 1024 'a') = (letters 1024).val := by decide +kernel
  have hzero : Char.ofNat 0 ∉ List.replicate 1024 'a' :=
    fun h => absurd (List.eq_of_mem_replicate h) (by decide)
  have hbounded := hclaim doublingTokenizer _ (vocabValid_of_texts hvocab) hzero
  rw [hletters] at hbounded
  exact not_countBounded (doubling_not_fits rfl rfl rfl) (letters 1024).property hbounded

end Count

end VgTokenizer

end VgEngine.Tokenizer
