import VgEngine.Tokenizer.Ranked

/-! The SentencePiece round trip: what the flags of the metadata declare of the spaces of a text,
and what is left of them when its ids are decoded. -/
namespace VgEngine.Tokenizer
open Bytes Lib Utf8 Gguf Model

section Render

variable {c : Char} {cs : List Char} {s : List UInt8}

/-- What a character of a token is rendered as. -/
def unmark (c : Char) : Char := if c = markChar then ' ' else c

theorem spmRender_continues {rest : List UInt8} (h : ∀ b ∈ rest, Continues b) :
    spmRender (rest ++ s) = rest ++ spmRender s := by
  induction rest with
  | nil => rfl
  | cons b rest ih =>
    have hb : ¬ spaceMark <+: b :: (rest ++ s) := by
      intro hprefix
      have hhead : b = 0xE2 := by
        have hmark : spaceMark = [0xE2, 0x96, 0x81] := by decide +kernel
        rw [hmark] at hprefix
        exact (List.cons_prefix_cons.1 hprefix).1.symm
      have hcont := h b List.mem_cons_self
      rw [hhead] at hcont
      exact absurd hcont (by unfold Continues; decide)
    rw [List.cons_append, spmRender_cons, if_neg hb, ih fun b' hb' => h b' (List.mem_cons_of_mem b hb')]
    rfl

/-- Marks are rendered as spaces, and all other characters as themselves. -/
theorem spmRender_utf8 (cs : List Char) : spmRender (utf8 cs) = utf8 (cs.map unmark) := by
  induction cs with
  | nil => rfl
  | cons c cs ih =>
    rw [List.map_cons, utf8_cons, utf8_cons]
    by_cases hc : c = markChar
    · have hc' : unmark c = ' ' := if_pos hc
      have hspace : String.utf8EncodeChar ' ' = [32] := by decide +kernel
      have hmark : String.utf8EncodeChar markChar = [0xE2, 0x96, 0x81] := by decide +kernel
      rw [hc', hc, hspace, ← ih, hmark, List.cons_append, spmRender_cons, if_pos]
      · rfl
      · rw [spaceMark_eq, hmark]
        exact List.prefix_append _ (utf8 cs)
    · have hc' : unmark c = c := if_neg hc
      obtain ⟨first, rest, hform⟩ := encodeChar_form c
      have hother : ¬ spaceMark <+: first :: (rest ++ utf8 cs) := by
        rintro ⟨t, ht⟩
        rw [← List.cons_append, ← hform.eq, spaceMark_eq] at ht
        exact hc (encodeChar_append_inj ht).1.symm
      rw [hc', hform.eq, List.cons_append, spmRender_cons, if_neg hother,
        spmRender_continues hform.continues, ih]
      rfl

end Render

section Collapse

/-- Runs of spaces collapse to one space, at the start to none. -/
def collapseSpaces : Bool → List Char → List Char
  | _, [] => []
  | prevSpace, c :: cs =>
    if c = ' ' ∧ prevSpace then collapseSpaces prevSpace cs
    else c :: collapseSpaces (c == ' ') cs

/-- What the flag for extra whitespace declares a text to be after the round trip. -/
def declaredText (removeExtra : Bool) (cs : List Char) : List Char :=
  if removeExtra then collapseSpaces true cs else cs

def dropSpace (cs : List Char) : List Char := if cs.head? = some ' ' then cs.tail else cs

variable {cs : List Char} {prevSpace removeExtra : Bool}

theorem collapseSpaces_cons (prevSpace : Bool) (c : Char) (cs : List Char) :
    collapseSpaces prevSpace (c :: cs) =
      if c = ' ' ∧ prevSpace then collapseSpaces prevSpace cs
      else c :: collapseSpaces (c == ' ') cs := rfl

theorem normalizeChars_unmark (h : markChar ∉ cs) :
    (normalizeChars removeExtra prevSpace cs).map unmark =
      if removeExtra then collapseSpaces prevSpace cs else cs := by
  induction cs generalizing prevSpace with
  | nil => split_ifs <;> rfl
  | cons c cs ih =>
    have hrest {p : Bool} : (normalizeChars removeExtra p cs).map unmark =
        if removeExtra then collapseSpaces p cs else cs :=
      ih fun hm => h (List.mem_cons_of_mem c hm)
    have hc : unmark (if c = ' ' then markChar else c) = c := by
      unfold unmark
      have hne : c ≠ markChar := fun heq => h (heq ▸ List.mem_cons_self)
      split_ifs <;> simp_all
    rw [normalizeChars_cons, collapseSpaces_cons]
    cases removeExtra with
    | false => simpa [hc] using hrest
    | true =>
      by_cases hskip : c = ' ' ∧ prevSpace
      · rw [if_pos ⟨hskip.1, rfl, hskip.2⟩, if_pos rfl, if_pos hskip, hrest, if_pos rfl]
      · rw [if_neg (by tauto), if_pos rfl, if_neg hskip, List.map_cons, hc, hrest, if_pos rfl]

theorem length_collapseSpaces (prevSpace : Bool) (cs : List Char) :
    (collapseSpaces prevSpace cs).length ≤ cs.length := by
  induction cs generalizing prevSpace with
  | nil => exact Nat.le_refl _
  | cons c cs ih =>
    rw [collapseSpaces_cons]
    split_ifs
    · exact Nat.le_succ_of_le (ih prevSpace)
    · exact Nat.succ_le_succ (ih _)

theorem doubleSpace_cons {c : Char} : [' ', ' '] <:+: c :: cs ↔
    (c = ' ' ∧ cs.head? = some ' ') ∨ [' ', ' '] <:+: cs := by
  rw [List.infix_cons_iff]
  apply or_congr_left
  rw [List.cons_prefix_cons]
  cases cs with
  | nil => simp
  | cons d cs => simp [List.cons_prefix_cons, eq_comm]

theorem collapseSpaces_eq_self_iff : collapseSpaces prevSpace cs = cs ↔
    (prevSpace = true → cs.head? ≠ some ' ') ∧ ¬ [' ', ' '] <:+: cs := by
  induction cs generalizing prevSpace with
  | nil => simp [collapseSpaces]
  | cons c cs ih =>
    rw [collapseSpaces_cons, doubleSpace_cons]
    by_cases hskip : c = ' ' ∧ prevSpace
    · rw [if_pos hskip]
      constructor
      · intro heq
        have hlength := length_collapseSpaces prevSpace cs
        rw [heq, List.length_cons] at hlength
        omega
      · rintro ⟨hhead, -⟩
        exact absurd (by rw [hskip.1]; rfl) (hhead hskip.2)
    · rw [if_neg hskip, List.cons.injEq, ih]
      by_cases hc : c = ' '
      · simp [hc] at hskip
        simp [hc, hskip]
      · simp [hc]

/-- Dropping one space is what is declared, exactly where no space follows another, or none
stands at the start. -/
theorem dropSpace_eq_declaredText_iff : dropSpace cs = declaredText removeExtra cs ↔
    if removeExtra then ¬ [' ', ' '] <:+: cs else cs.head? ≠ some ' ' := by
  unfold dropSpace declaredText
  cases removeExtra with
  | false =>
    simp only [Bool.false_eq_true, if_false]
    split_ifs with hhead
    · obtain ⟨t, rfl⟩ : ∃ t, cs = ' ' :: t := by
        cases cs with
        | nil => cases hhead
        | cons c cs => exact ⟨cs, by rw [Option.some.inj hhead]⟩
      simp
    · simp [hhead]
  | true =>
    simp only [if_true]
    split_ifs with hhead
    · obtain ⟨t, rfl⟩ : ∃ t, cs = ' ' :: t := by
        cases cs with
        | nil => cases hhead
        | cons c cs => exact ⟨cs, by rw [Option.some.inj hhead]⟩
      rw [collapseSpaces_cons, if_pos ⟨rfl, rfl⟩, List.tail_cons, eq_comm,
        collapseSpaces_eq_self_iff, doubleSpace_cons]
      tauto
    · rw [eq_comm, collapseSpaces_eq_self_iff]
      tauto

end Collapse

section Groups

variable {tok : VgTokenizer} {s : List UInt8} {cs ns : List Char}

/-- Every entry of the vocabulary is in UTF-8. -/
def VocabValid (tok : VgTokenizer) : Prop := ∀ t, tok.Has t → ∃ cs, t = utf8 cs

theorem vocabValid_of_texts {texts : List (List Char)}
    (h : tok.vocab.map Subtype.val = texts.map utf8) : VocabValid tok := by
  rintro t ⟨i, hi⟩
  unfold VgTokenizer.tokenText at hi
  rw [← List.getElem?_map, h] at hi
  obtain ⟨chars, -, hchars⟩ := List.mem_map.1 (List.mem_of_getElem? hi)
  exact ⟨chars, hchars.symm⟩

/-- The greedy match finds groups of characters: entries, and single characters that are none. -/
theorem greedy_groups (hvalid : VocabValid tok) {found : List (Option Nat × List UInt8)}
    (h : VgTokenizer.Greedy tok s found) (hs : s = utf8 ns) :
    ∃ groups : List (List Char), groups.flatten = ns ∧
      VgTokenizer.greedyIds found = groups.map (fun g => tok.idOf (utf8 g)) ∧
      ∀ g ∈ groups, g ≠ [] ∧ (tok.Has (utf8 g) ∨ ∃ c, g = [c] ∧ ¬ tok.Has (utf8 [c])) := by
  induction h generalizing ns with
  | done =>
    cases ns with
    | nil => exact ⟨[], rfl, rfl, by simp⟩
    | cons c ns =>
      obtain ⟨first, rest, hform⟩ := encodeChar_form c
      rw [utf8_cons, hform.eq] at hs
      cases hs
  | @miss b q pieces hmatch hroom hrest ih =>
    cases ns with
    | nil => cases hs
    | cons c ns =>
      obtain ⟨first, rest, hform⟩ := encodeChar_form c
      rw [utf8_cons, hform.eq, List.cons_append] at hs
      obtain ⟨rfl, rfl⟩ := List.cons.inj hs
      have hneed : needCp b = (String.utf8EncodeChar c).length := by
        rw [needCp_eq, hform.length, hform.eq, List.length_cons]
      have hsmall : needCp b < 512 := by
        unfold needCp
        split_ifs <;> decide
      have hsingle : utf8 [c] = String.utf8EncodeChar c := List.append_nil _
      have hunknown : ¬ tok.Has (utf8 [c]) := by
        have hnone := VgTokenizer.not_has_of_longestMatch hmatch _ (Nat.le_refl _) hroom hsmall
        rwa [← List.cons_append, ← hform.eq, hneed, List.take_left, ← hsingle] at hnone
      have hdrop : (b :: (rest ++ utf8 ns)).drop (needCp b) = utf8 ns := by
        rw [← List.cons_append, ← hform.eq, hneed, List.drop_left]
      obtain ⟨groups, hflatten, hids, hgroups⟩ := ih hdrop
      refine ⟨[c] :: groups, by rw [List.flatten_cons, hflatten]; rfl, ?_, ?_⟩
      · have hid : tok.idOf (utf8 [c]) = 0 := by
          unfold VgTokenizer.idOf
          rw [VgTokenizer.findTokenN_eq_none.2 hunknown]
          rfl
        rw [List.map_cons, hid, ← hids]
        rfl
      · rw [List.forall_mem_cons]
        exact ⟨⟨List.cons_ne_nil _ _, Or.inr ⟨c, rfl, hunknown⟩⟩, hgroups⟩
  | @hit b q id len pieces hmatch hrest ih =>
    have hfound : VgTokenizer.IsMatch tok (b :: q) (needCp b) id len := .of_longestMatch hmatch
    have hhas : tok.Has ((b :: q).take len) :=
      VgTokenizer.findTokenN_isSome.1 (by rw [hfound.find]; rfl)
    obtain ⟨g, hg⟩ := hvalid _ hhas
    have hprefix : utf8 g <+: utf8 ns := by
      rw [← hg, ← hs]
      exact List.take_prefix len _
    obtain ⟨ms, rfl⟩ := isPrefix_of_utf8 hprefix
    have hdrop : (b :: q).drop len = utf8 ms := by
      have hsplit : utf8 g ++ (b :: q).drop len = utf8 g ++ utf8 ms := by
        rw [← utf8_append, ← hs, ← hg, List.take_append_drop]
      exact List.append_cancel_left hsplit
    obtain ⟨groups, hflatten, hids, hgroups⟩ := ih hdrop
    have hne : g ≠ [] := by
      rintro rfl
      have hlength := congrArg List.length hg
      have hle := hfound.need_le
      have hpos := needCp_pos b
      rw [List.length_take, List.length_cons] at hlength
      simp only [utf8, List.flatMap_nil, List.length_nil] at hlength
      omega
    refine ⟨g :: groups, by rw [List.flatten_cons, hflatten], ?_, ?_⟩
    · have hid : tok.idOf (utf8 g) = (id : Nat) := by
        unfold VgTokenizer.idOf
        rw [← hg, hfound.find]
        rfl
      rw [List.map_cons, hid, ← hids]
      rfl
    · rw [List.forall_mem_cons]
      exact ⟨⟨hne, Or.inl (hg ▸ hhas)⟩, hgroups⟩

/-- Where all characters are entries, so are the groups. -/
theorem groups_entries {groups : List (List Char)} (hcovers : ∀ c ∈ groups.flatten,
    tok.Has (String.utf8EncodeChar c))
    (hgroups : ∀ g ∈ groups, g ≠ [] ∧ (tok.Has (utf8 g) ∨ ∃ c, g = [c] ∧ ¬ tok.Has (utf8 [c]))) :
    ∀ g ∈ groups, g ≠ [] ∧ tok.Has (utf8 g) := by
  intro g hg
  obtain ⟨hne, hentry | ⟨c, rfl, hunknown⟩⟩ := hgroups g hg
  · exact ⟨hne, hentry⟩
  · have hsingle : utf8 [c] = String.utf8EncodeChar c := List.append_nil _
    rw [hsingle] at hunknown
    exact absurd (hcovers c (List.mem_flatten_of_mem hg List.mem_cons_self)) hunknown

theorem mark_prefix_utf8 {c : Char} : spaceMark <+: utf8 (c :: cs) ↔ c = markChar := by
  have hmark : spaceMark = utf8 [markChar] := by decide +kernel
  rw [hmark]
  constructor
  · intro h
    exact (List.cons_prefix_cons.1 (isPrefix_of_utf8 h)).1.symm
  · rintro rfl
    exact ⟨utf8 cs, (utf8_append [markChar] cs).symm⟩

theorem head_utf8_eq_space : (utf8 cs).head? = some 32 ↔ cs.head? = some ' ' := by
  have hspace : [32] = utf8 [' '] := by decide +kernel
  constructor
  · intro h
    obtain ⟨t, ht⟩ := List.head?_eq_some_iff.1 h
    have hprefix : utf8 [' '] <+: utf8 cs := ⟨t, by rw [← hspace, ht]; rfl⟩
    obtain ⟨rest, hrest⟩ := isPrefix_of_utf8 hprefix
    rw [← hrest]
    rfl
  · intro h
    obtain ⟨t, rfl⟩ := List.head?_eq_some_iff.1 h
    rw [utf8_cons]
    rfl

/-- A decoded text is taken to be marked at the start exactly if it starts with a space. -/
theorem startsMarked_groups (hspm : tok.gpt2ByteMap = false) {groups : List (List Char)}
    (hgroups : ∀ g ∈ groups, g ≠ [] ∧ tok.Has (utf8 g)) (hspace : ' ' ∉ groups.flatten) :
    tok.startsMarked (groups.map fun g => tok.idOf (utf8 g))
      (utf8 (groups.flatten.map unmark)) ↔ (groups.flatten.map unmark).head? = some ' ' := by
  unfold VgTokenizer.startsMarked
  simp only [hspm, Bool.not_false, Bool.true_and, Bool.and_eq_true, beq_iff_eq, head_utf8_eq_space]
  refine and_iff_left_of_imp fun hhead => ?_
  cases groups with
  | nil => cases hhead
  | cons g groups =>
    obtain ⟨hne, hhas⟩ := hgroups g List.mem_cons_self
    obtain ⟨c, g, rfl⟩ := List.exists_cons_of_ne_nil hne
    have hc : c = markChar := by
      have hunmark : unmark c = ' ' := Option.some.inj hhead
      unfold unmark at hunmark
      split_ifs at hunmark with hmark
      · exact hmark
      · exact absurd (hunmark ▸ List.mem_flatten_of_mem List.mem_cons_self List.mem_cons_self) hspace
    rw [List.map_cons, List.head?_cons, Option.bind_some, textOf_idOf hhas, Option.any_some]
    exact List.isPrefixOf_iff_prefix.2 (mark_prefix_utf8.2 hc)

/-- The ids of groups of characters are decoded to the characters, marks as spaces, less the space
of a mark at the start. -/
theorem decodeSequence_groups (hspm : tok.gpt2ByteMap = false) {groups : List (List Char)}
    (hgroups : ∀ g ∈ groups, g ≠ [] ∧ tok.Has (utf8 g)) (hspace : ' ' ∉ groups.flatten)
    (hzero : Char.ofNat 0 ∉ groups.flatten) :
    tok.decodeSequence (groups.map fun g => tok.idOf (utf8 g)) =
      utf8 (dropSpace (groups.flatten.map unmark)) := by
  have hpieces : ((groups.map fun g => tok.idOf (utf8 g)).map tok.piece).flatten =
      utf8 (groups.flatten.map unmark) := by
    have hpiece : (groups.map fun g => tok.idOf (utf8 g)).map tok.piece =
        groups.map fun g => utf8 (g.map unmark) := by
      rw [List.map_map]
      apply List.map_congr_left
      intro g hg
      change tok.piece (tok.idOf (utf8 g)) = _
      rw [piece_idOf (hgroups g hg).2]
      unfold VgTokenizer.render
      rw [hspm, if_neg (by decide), spmRender_utf8]
    rw [hpiece]
    clear hpiece hgroups hspace hzero
    induction groups with
    | nil => rfl
    | cons g groups ih => rw [List.map_cons, List.flatten_cons, ih, ← utf8_append, List.flatten_cons,
        List.map_append]
  have hbytes : 0 ∉ utf8 (groups.flatten.map unmark) := by
    apply zero_notMem_utf8
    intro hmem
    obtain ⟨c, hc, hc0⟩ := List.mem_map.1 hmem
    unfold unmark at hc0
    split_ifs at hc0
    · exact absurd hc0 (by decide)
    · exact hzero (hc0 ▸ hc)
  have hcstr {s : List UInt8} (hs : ∀ b ∈ s, b ∈ utf8 (groups.flatten.map unmark)) : cstr s = s := by
    apply cstr_eq_self
    rintro b hb rfl
    exact hbytes (hs 0 hb)
  have hmarked := startsMarked_groups hspm hgroups hspace
  rw [decodeSequence_eq, hpieces]
  unfold dropSpace
  by_cases hhead : (groups.flatten.map unmark).head? = some ' '
  · rw [if_pos (hmarked.2 hhead), if_pos hhead]
    obtain ⟨t, ht⟩ := List.head?_eq_some_iff.1 hhead
    have htail : (utf8 (groups.flatten.map unmark)).tail = utf8 t := by
      rw [ht, utf8_cons]
      rfl
    rw [ht, List.tail_cons, ← ht, htail]
    exact hcstr fun b hb => List.mem_of_mem_tail (htail ▸ hb)
  · rw [if_neg (mt hmarked.1 hhead), if_neg hhead]
    exact hcstr fun b hb => hb

/-- The text holds no marker of a reserved token. -/
def Plain (tok : VgTokenizer) (text : List UInt8) : Prop :=
  ∀ i ∈ tok.added, ¬ (tok.vocab.get i).val <:+: text

theorem splitAdded_plain {fuel : Nat} {seg p : List UInt8} (hfuel : p.length < fuel)
    (h : Plain tok p) : tok.splitAdded fuel seg p = [(seg ++ p, none)] := by
  induction fuel generalizing seg p with
  | zero => omega
  | succ fuel ih =>
    unfold VgTokenizer.splitAdded
    cases p with
    | nil => simp
    | cons c q =>
      rw [List.length_cons] at hfuel
      have hnone : tok.matchAdded (c :: q) = none := by
        by_contra hsome
        obtain ⟨a, ha⟩ := Option.ne_none_iff_exists'.1 hsome
        obtain ⟨i, hi, -, hprefix⟩ := VgTokenizer.matchAdded_some ha
        exact h i hi hprefix.isInfix
      have hrest : Plain tok q := fun i hi hinfix =>
        h i hi (List.infix_cons_iff.2 (Or.inr hinfix))
      dsimp only
      rw [hnone]
      dsimp only
      rw [ih (by omega) hrest, List.append_assoc, List.singleton_append]

theorem segments_plain {text : List UInt8} (h : Plain tok text) :
    tok.segments text = [(text, none)] := by
  unfold VgTokenizer.segments
  split_ifs
  · rfl
  · rw [splitAdded_plain (Nat.lt_succ_self _) h, List.nil_append]

/-- A SentencePiece tokenizer with a vocabulary in UTF-8. -/
structure SpmTokenizer (tok : VgTokenizer) : Prop where
  spm : tok.gpt2ByteMap = false
  valid : VocabValid tok

theorem SpmTokenizer.added (h : SpmTokenizer tok) : tok.AddedValid := fun i _ =>
  h.valid _ ⟨i.val, by simp [VgTokenizer.tokenText]⟩

/-- What decoding makes of the ids of a text: its characters as they are normalised, less a space
at the start. -/
theorem decodeSequence_encodes (h : SpmTokenizer tok) (hcs : CharsInVocab tok cs)
    (hmark : markChar ∉ cs) (hplain : Plain tok (utf8 cs)) (junk : Nat → Nat → UInt8) :
    ∃ ids, Encodes tok junk (utf8 cs) ids ∧
      tok.decodeSequence ids = utf8 (dropSpace ((tok.spmChars cs).map unmark)) := by
  have hencodes := (encode_greedy h.spm h.added hcs junk).encodes
  rw [segments_plain hplain] at hencodes
  refine ⟨_, hencodes, ?_⟩
  have hsingle : VgTokenizer.idsOf (tok.segmentIds tok.greedySegment) [(utf8 cs, none)] =
      tok.segmentIds tok.greedySegment (utf8 cs) := by
    simp [VgTokenizer.idsOf]
  rw [hsingle]
  unfold VgTokenizer.segmentIds
  split_ifs with hempty
  · -- an empty text between reserved tokens has no ids, not even that of the dummy prefix
    have hnil : cs = [] := by
      cases cs with
      | nil => rfl
      | cons c cs =>
        obtain ⟨first, rest, hform⟩ := encodeChar_form c
        rw [utf8_cons, hform.eq] at hempty
        cases hempty.2
    have hdecode : tok.decodeSequence [] = [] := by
      rw [decodeSequence_eq]
      simp [VgTokenizer.startsMarked, cstr]
    subst hnil
    rw [hdecode]
    unfold VgTokenizer.spmChars
    cases tok.addDummyPrefix <;> rfl
  · obtain ⟨found, hfound, hids⟩ := greedy_norm tok cs
    obtain ⟨groups, hflatten, hgroupIds, hgroups⟩ :=
      greedy_groups h.valid hfound (VgTokenizer.spmNormalize_utf8 tok cs)
    have hcovers : ∀ c ∈ groups.flatten, tok.Has (String.utf8EncodeChar c) :=
      hflatten ▸ hcs.covers fun _ hd => hd
    rw [hids, hgroupIds, decodeSequence_groups h.spm (groups_entries hcovers hgroups), hflatten]
    · rw [hflatten]
      intro hspace
      rcases mem_spmChars hspace with ⟨-, hmarked⟩ | ⟨c, -, hc⟩
      · exact absurd hmarked (by decide)
      · split_ifs at hc with hne
        · exact absurd hc (by decide)
        · exact hne hc.symm
    · rw [hflatten]
      intro hzero
      rcases mem_spmChars hzero with ⟨-, hmarked⟩ | ⟨c, hc, hc0⟩
      · exact absurd hmarked (by decide)
      · split_ifs at hc0 with hne
        · exact absurd hc0 (by decide)
        · exact hcs.terminated (hc0 ▸ hc)

/-- By the flags as the tokenizer holds them: with one of them set the text comes back as they
declare it, and with none a space at its start is lost. -/
theorem dropSpace_spmChars (hmark : markChar ∉ cs) :
    dropSpace ((tok.spmChars cs).map unmark) =
      if tok.addDummyPrefix ∨ tok.removeExtraWs then declaredText tok.removeExtraWs cs
      else dropSpace cs := by
  unfold VgTokenizer.spmChars declaredText
  rw [List.map_append, normalizeChars_unmark hmark]
  cases tok.addDummyPrefix with
  | true => rfl
  | false =>
    cases tok.removeExtraWs with
    | false => rfl
    | true =>
      have hhead : (collapseSpaces true cs).head? ≠ some ' ' := by
        clear hmark
        induction cs with
        | nil => simp [collapseSpaces]
        | cons c cs ih =>
          rw [collapseSpaces_cons]
          split_ifs with hskip
          · exact ih
          · simpa using hskip
      simp [dropSpace, hhead]

end Groups

section Flags

variable {g : VgGguf} {tok : VgTokenizer} {cs : List Char} {dummy removeExtra : Nat}

theorem tokenizerLoad_flags (h : tokenizerLoad g = .ok tok) :
    tok.addDummyPrefix = spmFlag g "tokenizer.ggml.add_dummy_prefix" ∧
      tok.removeExtraWs = spmFlag g "tokenizer.ggml.remove_extra_whitespaces" := by
  unfold tokenizerLoad at h
  cases htokens : metaText g "tokenizer.ggml.tokens" with
  | none => simp [htokens] at h
  | some tokens =>
    rw [htokens] at h
    dsimp only at h
    split_ifs at h
    cases h
    exact ⟨rfl, rfl⟩

/-- Without a byte-level model and without token types, the tokenizer is a SentencePiece one with no
reserved tokens. -/
theorem tokenizerLoad_spm {tokens : List UInt8}
    (htokens : metaText g "tokenizer.ggml.tokens" = some tokens) (hvocab : arrayStrings tokens ≠ [])
    (hmodel : ¬ (metaText g "tokenizer.ggml.model" = some (txt "gpt2") ∨
      metaText g "tokenizer.ggml.model" = some (txt "bpe")))
    (htypes : metaText g "tokenizer.ggml.token_type" = none) :
    ∃ tok, tokenizerLoad g = .ok tok ∧ tok.vocab = arrayStrings tokens ∧
      tok.gpt2ByteMap = false ∧ tok.added = [] := by
  unfold tokenizerLoad
  rw [htokens]
  dsimp only
  rw [if_neg hvocab]
  refine ⟨_, rfl, rfl, ?_, ?_⟩
  · dsimp only
    rw [decide_eq_false hmodel, Bool.false_and]
  · dsimp only
    rw [htypes, List.filter_eq_nil_iff]
    intro i hi
    simp [isAdded]

/-- A boolean of the file is rendered as a word, and a word is no number. -/
theorem spmFlag_boolText {key : String} {raw : Nat} (h : ggufMeta g (txt key) = some (boolText raw)) :
    spmFlag g key = false := by
  have hword : strtol (cstr (boolText raw)) = 0 := by
    unfold boolText
    split_ifs <;> decide +kernel
  unfold spmFlag metaText
  rw [h, Option.map_some, Option.map_some, hword]
  rfl

/-- A tokenizer of a file that declares both flags, and a text that its vocabulary covers. -/
structure Declares (g : VgGguf) (tok : VgTokenizer) (dummy removeExtra : Nat) (cs : List Char) :
    Prop where
  load : tokenizerLoad g = .ok tok
  spm : SpmTokenizer tok
  dummyMeta : ggufMeta g (txt "tokenizer.ggml.add_dummy_prefix") = some (boolText dummy)
  removeMeta : ggufMeta g (txt "tokenizer.ggml.remove_extra_whitespaces") =
    some (boolText removeExtra)
  chars : CharsInVocab tok cs
  mark : markChar ∉ cs
  plain : Plain tok (utf8 cs)

/-- The round trip. -/
def RoundTrips (tok : VgTokenizer) (junk : Nat → Nat → UInt8) (removeExtra : Nat)
    (cs : List Char) : Prop :=
  ∃ ids, Encodes tok junk (utf8 cs) ids ∧
    tok.decodeSequence ids = utf8 (declaredText (removeExtra != 0) cs)

theorem Declares.decodeSequence (h : Declares g tok dummy removeExtra cs)
    (junk : Nat → Nat → UInt8) :
    ∃ ids, Encodes tok junk (utf8 cs) ids ∧ tok.decodeSequence ids = utf8 (dropSpace cs) := by
  obtain ⟨hdummy, hremove⟩ := tokenizerLoad_flags h.load
  rw [spmFlag_boolText h.dummyMeta] at hdummy
  rw [spmFlag_boolText h.removeMeta] at hremove
  have hids := decodeSequence_encodes h.spm h.chars h.mark h.plain junk
  rwa [dropSpace_spmChars h.mark, hdummy, hremove, if_neg (by decide)] at hids

/-- A text comes back as the flags declare it exactly when no two of its spaces stand together, if
extra whitespace is to be removed, and when no space stands at its start, if it is to be kept. -/
theorem roundTrips_iff (h : Declares g tok dummy removeExtra cs) (junk : Nat → Nat → UInt8) :
    RoundTrips tok junk removeExtra cs ↔
      if removeExtra != 0 then ¬ [' ', ' '] <:+: cs else cs.head? ≠ some ' ' := by
  obtain ⟨ids, hencodes, hdecode⟩ := h.decodeSequence junk
  rw [← dropSpace_eq_declaredText_iff]
  constructor
  · rintro ⟨ids', hencodes', hdecode'⟩
    rw [hencodes.unique hencodes', hdecode'] at hdecode
    exact (utf8_inj hdecode).symm
  · intro heq
    exact ⟨ids, hencodes, by rw [hdecode, heq]⟩

/-- A file with both flags set. -/
def flaggedFile : VgGguf where
  fileSize := 4096
  dataBase := 0
  tensorCount := 0
  tensors := none
  metas := [
    (txt "tokenizer.ggml.model", txt "llama"),
    (txt "tokenizer.ggml.tokens", txt "[\"<unk>\", \"\\u2581\", \"a\", \"b\"]"),
    (txt "tokenizer.ggml.add_dummy_prefix", boolText 1),
    (txt "tokenizer.ggml.remove_extra_whitespaces", boolText 1)]
  tensorHash := none
  metaHash := none

def flaggedVocab : List CString :=
  [.ofBytes (txt "<unk>"), .ofBytes spaceMark, .ofBytes (txt "a"), .ofBytes (txt "b")]

theorem load_flaggedFile : ∃ tok, tokenizerLoad flaggedFile = .ok tok ∧
    tok.vocab = flaggedVocab ∧ tok.gpt2ByteMap = false ∧ tok.added = [] := by
  have htokens : metaText flaggedFile "tokenizer.ggml.tokens" =
      some (txt "[\"<unk>\", \"\\u2581\", \"a\", \"b\"]") := by decide +kernel
  have hvocab : arrayStrings (txt "[\"<unk>\", \"\\u2581\", \"a\", \"b\"]") = flaggedVocab := by
    decide +kernel
  rw [← hvocab]
  refine tokenizerLoad_spm htokens ?_ ?_ (by decide +kernel)
  · rw [hvocab]
    exact List.cons_ne_nil _ _
  · decide +kernel

theorem declares_flagged {tok : VgTokenizer} {cs : List Char}
    (hload : tokenizerLoad flaggedFile = .ok tok) (hvocab : tok.vocab = flaggedVocab)
    (hspm : tok.gpt2ByteMap = false) (hadded : tok.added = [])
    (hcs : ∀ c ∈ cs, c = ' ' ∨ c = 'a' ∨ c = 'b') : Declares flaggedFile tok 1 1 cs := by
  have hhas (t : List UInt8) (i : Nat) (hi : (flaggedVocab[i]?.map Subtype.val) = some t) :
      tok.Has t := ⟨i, by unfold VgTokenizer.tokenText; rw [hvocab, hi]⟩
  constructor
  case load => exact hload
  case dummyMeta => decide +kernel
  case removeMeta => decide +kernel
  case spm =>
    have hvalid : flaggedVocab.map Subtype.val =
        ["<unk>".toList, [markChar], ['a'], ['b']].map utf8 := by decide +kernel
    exact ⟨hspm, vocabValid_of_texts (hvocab ▸ hvalid)⟩
  case chars =>
    constructor
    case chars =>
      intro c hc
      rcases hcs c hc with rfl | rfl | rfl
      · exact hhas _ 1 (by decide +kernel)
      · exact hhas _ 2 (by decide +kernel)
      · exact hhas _ 3 (by decide +kernel)
    case mark => exact fun _ => hhas _ 1 (by decide +kernel)
    case terminated =>
      intro hzero
      exact absurd (hcs _ hzero) (by decide)
  case mark =>
    intro hmark
    exact absurd (hcs _ hmark) (by decide)
  case plain =>
    intro i hi
    rw [hadded] at hi
    cases hi

theorem roundTrips_flagged_iff : ∃ tok, tokenizerLoad flaggedFile = .ok tok ∧
    (RoundTrips tok (fun _ _ => 0) 1 [' ', 'a', ' ', 'b'] ↔
      if (1 : Nat) != 0 then ¬ [' ', ' '] <:+: [' ', 'a', ' ', 'b']
      else [' ', 'a', ' ', 'b'].head? ≠ some ' ') := by
  obtain ⟨tok, hload, hvocab, hspm, hadded⟩ := load_flaggedFile
  exact ⟨tok, hload, roundTrips_iff (declares_flagged hload hvocab hspm hadded (by simp)) _⟩

/-- Both flags are declared, and yet two spaces come back as two. -/
theorem flagged_notRoundTrips :
    ¬ ∀ (g : VgGguf) (tok : VgTokenizer) (dummy removeExtra : Nat) (cs : List Char)
      (junk : Nat → Nat → UInt8), Declares g tok dummy removeExtra cs →
      RoundTrips tok junk removeExtra cs := by
  intro hclaim
  obtain ⟨tok, hload, hvocab, hspm, hadded⟩ := load_flaggedFile
  have hdeclares : Declares flaggedFile tok 1 1 ['a', ' ', ' ', 'b'] :=
    declares_flagged hload hvocab hspm hadded (by simp)
  obtain ⟨ids, hencodes, hdecode⟩ := hdeclares.decodeSequence fun _ _ => 0
  obtain ⟨ids', hencodes', hdecode'⟩ := hclaim _ _ _ _ _ (fun _ _ => 0) hdeclares
  rw [hencodes.unique hencodes', hdecode'] at hdecode
  exact absurd (utf8_inj hdecode) (by decide)

end Flags

end VgEngine.Tokenizer
