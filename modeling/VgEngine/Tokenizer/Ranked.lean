import VgEngine.Tokenizer.Characters
import VgEngine.Tokenizer.ByteLevel

/-! The greedy match and the merge rules: the ids of a SentencePiece encoding are those of the
ranked merges exactly when each merged piece is the longest entry at its place. -/
namespace VgEngine.Tokenizer
open Bytes Lib Utf8 Model

/-- The characters of a text, by the lengths their first bytes announce. -/
def characters : Nat → List UInt8 → List (List UInt8)
  | 0, _ => []
  | fuel + 1, s =>
    match s with
    | [] => []
    | c :: q => (c :: q).take (needCp c) :: characters fuel ((c :: q).drop (needCp c))

theorem characters_utf8 {cs : List Char} {fuel : Nat} (hfuel : (utf8 cs).length ≤ fuel) :
    characters fuel (utf8 cs) = cs.map String.utf8EncodeChar := by
  induction cs generalizing fuel with
  | nil => cases fuel <;> rfl
  | cons c cs ih =>
    obtain ⟨first, rest, hform⟩ := encodeChar_form c
    have hneed : needCp first = (String.utf8EncodeChar c).length := by
      rw [needCp_eq, hform.length, hform.eq, List.length_cons]
    rw [utf8_cons, List.length_append, ← hneed] at hfuel
    have hpos := needCp_pos first
    obtain ⟨fuel, rfl⟩ : ∃ k, fuel = k + 1 := ⟨fuel - 1, by omega⟩
    rw [utf8_cons, hform.eq, List.cons_append]
    unfold characters
    dsimp only
    rw [← List.cons_append, ← hform.eq, hneed, List.take_left, List.drop_left, ih (by omega)]
    rfl

namespace VgTokenizer

variable {tok : VgTokenizer}

/-- The greedy match, executable. -/
def greedy (tok : VgTokenizer) : Nat → List UInt8 → List (Option Nat × List UInt8)
  | 0, _ => []
  | fuel + 1, s =>
    match s with
    | [] => []
    | c :: q =>
      match tok.longestMatch (c :: q) (needCp c) with
      | some (id, len) =>
        (some id, (c :: q).take len) :: greedy tok fuel ((c :: q).drop len)
      | none =>
        (none, (c :: q).take (needCp c)) :: greedy tok fuel ((c :: q).drop (needCp c))

theorem Greedy.eq {s : List UInt8} {pieces : List (Option Nat × List UInt8)}
    (h : Greedy tok s pieces) {fuel : Nat} (hfuel : s.length ≤ fuel) :
    tok.greedy fuel s = pieces := by
  induction h generalizing fuel with
  | done => cases fuel <;> rfl
  | @hit c q id len pieces hmatch hrest ih =>
    have hfound : IsMatch tok (c :: q) (needCp c) id len := .of_longestMatch hmatch
    have hle := hfound.need_le
    have hpos := needCp_pos c
    rw [List.length_cons] at hfuel
    obtain ⟨fuel, rfl⟩ : ∃ k, fuel = k + 1 := ⟨fuel - 1, by omega⟩
    unfold greedy
    dsimp only
    rw [hmatch]
    dsimp only
    rw [ih]
    rw [List.length_drop, List.length_cons]
    omega
  | @miss c q pieces hmatch hroom hrest ih =>
    have hpos := needCp_pos c
    rw [List.length_cons] at hfuel
    obtain ⟨fuel, rfl⟩ : ∃ k, fuel = k + 1 := ⟨fuel - 1, by omega⟩
    unfold greedy
    dsimp only
    rw [hmatch]
    dsimp only
    rw [ih]
    rw [List.length_drop, List.length_cons]
    omega

/-- The pieces of the ranked merge of a normalised segment. -/
def rankedPieces (tok : VgTokenizer) (seg : List UInt8) : List (List UInt8) :=
  let norm := tok.spmNormalize seg
  RankedMerge.merged tok.findMerge (characters norm.length norm)

/-- What the encoder emits for a segment; between reserved tokens it skips empty ones. -/
def segmentIds (tok : VgTokenizer) (ids : List UInt8 → List Int) (seg : List UInt8) : List Int :=
  if tok.added ≠ [] ∧ seg = [] then [] else ids seg

def greedySegment (tok : VgTokenizer) (seg : List UInt8) : List Int :=
  greedyIds (tok.greedy (tok.spmNormalize seg).length (tok.spmNormalize seg))

def rankedSegment (tok : VgTokenizer) (seg : List UInt8) : List Int :=
  (tok.rankedPieces seg).map tok.idOf

/-- The encoding by ranked merges: characters merged in each segment, reserved tokens between. -/
def rankedEncode (tok : VgTokenizer) (text : List UInt8) : List Int :=
  idsOf (tok.segmentIds tok.rankedSegment) (tok.segments text)

/-- A piece is the longest entry at the head of a text, among those below 512 bytes. -/
def IsLongest (tok : VgTokenizer) (piece s : List UInt8) : Prop :=
  piece.length < 512 ∧ ∀ q, tok.Has q → q <+: s → q.length < 512 → q.length ≤ piece.length

/-- Each piece is the longest entry at its place. -/
def AllLongest (tok : VgTokenizer) : List (List UInt8) → Prop
  | [] => True
  | piece :: pieces => tok.IsLongest piece (piece :: pieces).flatten ∧ tok.AllLongest pieces

/-- Whole characters, the first of which is an entry, as they are together. -/
def IsRun (tok : VgTokenizer) (piece : List UInt8) : Prop :=
  ∃ c cs, piece = utf8 (c :: cs) ∧ tok.Has (String.utf8EncodeChar c) ∧ tok.Has piece

theorem IsRun.head {piece : List UInt8} (h : tok.IsRun piece) : ∃ b q, piece = b :: q ∧
    needCp b ≤ piece.length ∧ needCp b < 512 ∧ tok.Has (piece.take (needCp b)) := by
  obtain ⟨c, cs, rfl, hc, -⟩ := h
  obtain ⟨first, rest, hform⟩ := encodeChar_form c
  have hneed : needCp first = (String.utf8EncodeChar c).length := by
    rw [needCp_eq, hform.length, hform.eq, List.length_cons]
  refine ⟨first, rest ++ utf8 cs, ?_, ?_, ?_, ?_⟩
  · rw [utf8_cons, hform.eq]
    rfl
  · rw [utf8_cons, hneed, List.length_append]
    omega
  · unfold needCp
    split_ifs <;> decide
  · rw [utf8_cons, hneed, List.take_left]
    exact hc

theorem greedy_of_allLongest {pieces : List (List UInt8)} (hruns : ∀ p ∈ pieces, tok.IsRun p)
    (h : tok.AllLongest pieces) :
    Greedy tok pieces.flatten (pieces.map fun p => (tok.findTokenN p, p)) := by
  induction pieces with
  | nil => exact .done
  | cons piece pieces ih =>
    obtain ⟨hlongest, hrest⟩ := h
    have hrun := hruns piece List.mem_cons_self
    obtain ⟨b, q, hpiece, hneed, -, -⟩ := hrun.head
    obtain ⟨c, cs, -, -, hentry⟩ := hrun
    obtain ⟨id, hid⟩ := hentry.exists_find
    have htake : (piece ++ pieces.flatten).take piece.length = piece := List.take_left
    have hmatch : IsMatch tok (piece ++ pieces.flatten) (needCp b) id piece.length := by
      constructor
      case need_le => exact hneed
      case le_length => simp
      case lt => exact hlongest.1
      case find => rw [htake, hid]
      case longest =>
        intro len' hlen hs hroom hhas
        have hbound := hlongest.2 _ hhas (List.take_prefix len' _)
        rw [List.length_take] at hbound
        omega
    have hgreedy := ih (fun p hp => hruns p (List.mem_cons_of_mem piece hp)) hrest
    rw [List.flatten_cons, List.map_cons, hid]
    subst hpiece
    have hdrop : ((b :: q) ++ pieces.flatten).drop (b :: q).length = pieces.flatten :=
      List.drop_left
    rw [← hdrop] at hgreedy
    have hstep : Greedy tok ((b :: q) ++ pieces.flatten)
        ((some id, ((b :: q) ++ pieces.flatten).take (b :: q).length) ::
          pieces.map fun p => (tok.findTokenN p, p)) :=
      .hit hmatch.longestMatch_eq hgreedy
    rwa [htake] at hstep

theorem idOf_inj {p q : List UInt8} (hp : tok.Has p) (hq : tok.Has q)
    (h : tok.idOf p = tok.idOf q) : p = q := by
  have htext := textOf_idOf hp
  rw [h, textOf_idOf hq] at htext
  exact (Option.some.inj htext).symm

/-- A greedy match that emits the ids of merged pieces, whatever follows, has found each of them
as the longest entry. -/
theorem allLongest_of_greedy {pieces : List (List UInt8)} (hruns : ∀ p ∈ pieces, tok.IsRun p)
    {found : List (Option Nat × List UInt8)} (h : Greedy tok pieces.flatten found)
    {xs ys : List Int} (hids : greedyIds found ++ xs = pieces.map tok.idOf ++ ys) :
    tok.AllLongest pieces := by
  induction pieces generalizing found with
  | nil => trivial
  | cons piece pieces ih =>
    have hrun := hruns piece List.mem_cons_self
    obtain ⟨b, q, hpiece, hneed, hsmall, hfirst⟩ := hrun.head
    obtain ⟨c, cs, -, -, hentry⟩ := hrun
    rw [List.flatten_cons, hpiece, List.cons_append] at h
    cases h with
    | miss hmatch hroom hrest =>
      refine absurd ?_ (not_has_of_longestMatch hmatch (needCp b) (Nat.le_refl _) hroom hsmall)
      rw [← List.cons_append, ← hpiece, List.take_append_of_le_length hneed]
      exact hfirst
    | @hit _ _ id len rest hmatch hrest =>
      have hfound : IsMatch tok (b :: (q ++ pieces.flatten)) (needCp b) id len :=
        .of_longestMatch hmatch
      rw [← List.cons_append, ← hpiece] at hfound hrest
      unfold greedyIds at hids
      rw [List.map_cons, List.map_cons, List.cons_append, List.cons_append, List.cons.injEq] at hids
      -- the entry found has the id of the piece, so it is the piece
      have htake : (piece ++ pieces.flatten).take len = piece := by
        have hid : tok.idOf ((piece ++ pieces.flatten).take len) = tok.idOf piece := by
          rw [← hids.1]
          unfold idOf
          rw [hfound.find]
        exact idOf_inj (findTokenN_isSome.1 (by rw [hfound.find]; rfl)) hentry hid
      have hlen : len = piece.length := by
        have hlength := congrArg List.length htake
        rw [List.length_take] at hlength
        have := hfound.le_length
        omega
      subst hlen
      rw [List.drop_left] at hrest
      refine ⟨⟨hfound.lt, fun p hp hprefix hroom => ?_⟩, ?_⟩
      · by_contra hlonger
        obtain ⟨t, ht⟩ := hprefix
        rw [List.flatten_cons] at ht
        refine hfound.longest p.length (by omega) ?_ hroom ?_
        · rw [← ht, List.length_append]
          omega
        · rw [← ht, List.take_left]
          exact hp
      · exact ih (fun p hp => hruns p (List.mem_cons_of_mem piece hp)) hrest hids.2

theorem greedyIds_of_allLongest {pieces : List (List UInt8)} (hruns : ∀ p ∈ pieces, tok.IsRun p)
    {found : List (Option Nat × List UInt8)} (h : Greedy tok pieces.flatten found)
    (hall : tok.AllLongest pieces) : greedyIds found = pieces.map tok.idOf := by
  have hgreedy := greedy_of_allLongest hruns hall
  rw [(h.eq (Nat.le_refl _)).symm.trans (hgreedy.eq (Nat.le_refl _))]
  simp [greedyIds, idOf]

end VgTokenizer

section Encode

variable {tok : VgTokenizer} {cs ds : List Char}

/-- A SentencePiece tokenizer with merge rules, whose results are entries. -/
structure RankedTokenizer (tok : VgTokenizer) : Prop where
  spm : tok.gpt2ByteMap = false
  rules : tok.merges ≠ []
  results : ∀ m ∈ tok.merges, tok.Has (m.1.val ++ m.2.val)
  added : tok.AddedValid

/-- The characters of a text are entries, a space as its mark, and so is the dummy prefix. -/
structure CharsInVocab (tok : VgTokenizer) (cs : List Char) : Prop where
  chars : ∀ c ∈ cs, tok.Has (String.utf8EncodeChar (if c = ' ' then markChar else c))
  mark : tok.addDummyPrefix = true → tok.Has spaceMark
  terminated : Char.ofNat 0 ∉ cs

theorem mem_normalizeChars {removeExtra prevSpace : Bool} {d : Char}
    (h : d ∈ normalizeChars removeExtra prevSpace cs) :
    ∃ c ∈ cs, d = if c = ' ' then markChar else c := by
  induction cs generalizing prevSpace with
  | nil => cases h
  | cons c cs ih =>
    rw [normalizeChars_cons] at h
    have hrest {prevSpace : Bool} (h : d ∈ normalizeChars removeExtra prevSpace cs) :
        ∃ e ∈ c :: cs, d = if e = ' ' then markChar else e := by
      obtain ⟨e, he, hd⟩ := ih h
      exact ⟨e, List.mem_cons_of_mem c he, hd⟩
    by_cases hskip : c = ' ' ∧ removeExtra ∧ prevSpace
    · rw [if_pos hskip] at h
      exact hrest h
    · rw [if_neg hskip] at h
      rcases List.mem_cons.1 h with hd | h
      · exact ⟨c, List.mem_cons_self, hd⟩
      · exact hrest h

theorem mem_spmChars {d : Char} (h : d ∈ tok.spmChars cs) :
    (tok.addDummyPrefix = true ∧ d = markChar) ∨
      ∃ c ∈ cs, d = if c = ' ' then markChar else c := by
  unfold VgTokenizer.spmChars at h
  rcases List.mem_append.1 h with h | h
  · split_ifs at h with hdummy
    · exact Or.inl ⟨hdummy, List.mem_singleton.1 h⟩
    · cases h
  · exact Or.inr (mem_normalizeChars h)

theorem CharsInVocab.covers (h : CharsInVocab tok cs) (hsub : ∀ d ∈ ds, d ∈ cs) :
    tok.Covers ds := by
  intro d hd
  rcases mem_spmChars hd with ⟨hdummy, rfl⟩ | ⟨c, hc, rfl⟩
  · rw [← spaceMark_eq]
    exact h.mark hdummy
  · exact h.chars c (hsub c hc)

theorem CharsInVocab.norm_terminated (h : CharsInVocab tok cs) (hsub : ∀ d ∈ ds, d ∈ cs) :
    0 ∉ tok.spmNormalize (utf8 ds) :=
  VgTokenizer.zero_notMem_spmNormalize (zero_notMem_utf8 fun hmem => h.terminated (hsub _ hmem))

theorem isRun_rankedPieces (h : RankedTokenizer tok) (hcs : tok.Covers ds) :
    (tok.rankedPieces (utf8 ds)).flatten = tok.spmNormalize (utf8 ds) ∧
      ∀ p ∈ tok.rankedPieces (utf8 ds), tok.IsRun p := by
  unfold VgTokenizer.rankedPieces
  dsimp only
  rw [VgTokenizer.spmNormalize_utf8, characters_utf8 (Nat.le_refl _), RankedMerge.merged_flatten]
  refine ⟨List.flatMap_def.symm, ?_⟩
  apply RankedMerge.merged_forall
  · rintro a b r hr ⟨c, as, rfl, hc, -⟩ ⟨d, bs, rfl, -, -⟩
    obtain ⟨m, hm, hma, hmb⟩ := VgTokenizer.mem_of_mergeRule (VgTokenizer.mergeRule_of_findMerge hr)
    refine ⟨c, as ++ d :: bs, ?_, hc, ?_⟩
    · rw [← utf8_append]
      rfl
    · rw [← hma, ← hmb]
      exact h.results m hm
  · intro p hp
    obtain ⟨c, hc, rfl⟩ := List.mem_map.1 hp
    exact ⟨c, [], by simp [utf8], hcs c hc, hcs c hc⟩

theorem greedy_norm (tok : VgTokenizer) (ds : List Char) : ∃ found,
    VgTokenizer.Greedy tok (tok.spmNormalize (utf8 ds)) found ∧
      tok.greedySegment (utf8 ds) = VgTokenizer.greedyIds found := by
  have hsuffix : tok.spmNormalize (utf8 ds) <:+ utf8 (tok.spmChars ds) := by
    rw [VgTokenizer.spmNormalize_utf8]
  obtain ⟨found, hfound⟩ := VgTokenizer.exists_greedy hsuffix
  refine ⟨found, hfound, ?_⟩
  unfold VgTokenizer.greedySegment
  rw [hfound.eq (Nat.le_refl _)]

/-- The greedy ids of a segment, before others, are its merged ids exactly when each merged piece
is the longest entry. -/
theorem greedySegment_iff (h : RankedTokenizer tok) (hcs : tok.Covers ds) {xs ys : List Int} :
    tok.greedySegment (utf8 ds) ++ xs = tok.rankedSegment (utf8 ds) ++ ys ↔
      tok.AllLongest (tok.rankedPieces (utf8 ds)) ∧ xs = ys := by
  obtain ⟨hflatten, hruns⟩ := isRun_rankedPieces h hcs
  obtain ⟨found, hfound, hids⟩ := greedy_norm tok ds
  rw [← hflatten] at hfound
  rw [hids]
  unfold VgTokenizer.rankedSegment
  constructor
  · intro heq
    have hall := VgTokenizer.allLongest_of_greedy hruns hfound heq
    rw [VgTokenizer.greedyIds_of_allLongest hruns hfound hall] at heq
    exact ⟨hall, List.append_cancel_left heq⟩
  · rintro ⟨hall, rfl⟩
    rw [VgTokenizer.greedyIds_of_allLongest hruns hfound hall]

/-- A segment that is encoded. -/
def VgTokenizer.Encoded (tok : VgTokenizer) (seg : List UInt8) : Prop := tok.added = [] ∨ seg ≠ []

theorem idsOf_greedy_iff (h : RankedTokenizer tok)
    {segs : List (List UInt8 × Option (Nat × Nat))}
    (hsegs : ∀ s ∈ segs, ∃ ds, s.1 = utf8 ds ∧ tok.Covers ds) :
    VgTokenizer.idsOf (tok.segmentIds tok.greedySegment) segs =
      VgTokenizer.idsOf (tok.segmentIds tok.rankedSegment) segs ↔
    ∀ s ∈ segs, tok.Encoded s.1 → tok.AllLongest (tok.rankedPieces s.1) := by
  induction segs with
  | nil => simp [VgTokenizer.idsOf]
  | cons s segs ih =>
    have hrest := ih fun s' hs' => hsegs s' (List.mem_cons_of_mem s hs')
    obtain ⟨ds, hds, hcovers⟩ := hsegs s List.mem_cons_self
    have hcons (f : List UInt8 → List Int) : VgTokenizer.idsOf f (s :: segs) =
        f s.1 ++ ((s.2.map fun a => ((a.1 : Nat) : Int)).toList ++ VgTokenizer.idsOf f segs) := by
      unfold VgTokenizer.idsOf
      rw [List.flatMap_cons, List.append_assoc]
    rw [hcons, hcons, List.forall_mem_cons]
    unfold VgTokenizer.segmentIds at hrest ⊢
    by_cases hskip : tok.added ≠ [] ∧ s.1 = []
    · have hencoded : ¬ tok.Encoded s.1 := by
        rintro (hadded | hne)
        · exact hskip.1 hadded
        · exact hne hskip.2
      rw [if_pos hskip, if_pos hskip, List.nil_append, List.nil_append,
        List.append_right_inj, hrest]
      simp [hencoded]
    · have hencoded : tok.Encoded s.1 := by
        by_cases hadded : tok.added = []
        · exact Or.inl hadded
        · exact Or.inr fun hnil => hskip ⟨hadded, hnil⟩
      rw [if_neg hskip, if_neg hskip, hds, greedySegment_iff h hcovers, List.append_right_inj, hrest,
        ← hds]
      simp [hencoded]

/-- The encoder emits the greedy ids of each segment. -/
theorem encode_greedy (hspm : tok.gpt2ByteMap = false) (hadded : tok.AddedValid)
    (hcs : CharsInVocab tok cs) (junk : Nat → Nat → UInt8) :
    Emits (tok.encodeImpl (fun n => tok.encodeBody (junk n)) (utf8 cs))
      (VgTokenizer.idsOf (tok.segmentIds tok.greedySegment) (tok.segments (utf8 cs))) := by
  apply VgTokenizer.encodeImpl_emits
  · intro hne
    unfold VgTokenizer.segmentIds
    rw [if_pos ⟨hne, rfl⟩]
  · intro s hs hencoded n b
    obtain ⟨ds, hds, hsub⟩ := VgTokenizer.segments_utf8 hadded cs s hs
    obtain ⟨found, hfound, hids⟩ := greedy_norm tok ds
    have hskip : ¬ (tok.added ≠ [] ∧ s.1 = []) := by
      rintro ⟨hne, hnil⟩
      exact hencoded.elim hne fun h => h hnil
    have hfuel : (tok.spmNormalize (utf8 ds)).length < (tok.normBlock (junk n) (utf8 ds)).length + 1 := by
      unfold VgTokenizer.normBlock
      dsimp only
      rw [List.length_append]
      omega
    unfold VgTokenizer.encodeBody VgTokenizer.segmentIds
    rw [hspm, if_neg (by decide), if_neg hskip, hds, hids]
    exact hfound.emits (hcs.norm_terminated hsub) _ hfuel b

/-- What the encoder returns for the ids `ids`: it counts them all, and with enough room they are
in the array. -/
def Encodes (tok : VgTokenizer) (junk : Nat → Nat → UInt8) (text : List UInt8) (ids : List Int) :
    Prop :=
  ∀ room, ids.length ≤ room → tok.encode junk text room = some ⟨room, ids, ids.length⟩

theorem Emits.encodes {junk : Nat → Nat → UInt8} {text : List UInt8} {ids : List Int}
    (h : Emits (tok.encodeImpl (fun n => tok.encodeBody (junk n)) text) ids) :
    Encodes tok junk text ids := by
  intro room hroom
  unfold VgTokenizer.encode
  rw [h.written, List.take_of_length_le hroom]

theorem Encodes.unique {junk : Nat → Nat → UInt8} {text : List UInt8} {ids ids' : List Int}
    (h : Encodes tok junk text ids) (h' : Encodes tok junk text ids') : ids = ids' := by
  have heq := (h _ (Nat.le_max_left _ _)).symm.trans (h' _ (Nat.le_max_right _ _))
  simp only [Option.some.injEq, IdBuffer.mk.injEq, true_and] at heq
  exact heq.1

/-- The encoder emits the ids of the ranked merges exactly when, in each segment it encodes, each
merged piece is the longest entry at its place. -/
theorem encodes_rankedEncode_iff (h : RankedTokenizer tok) (hcs : CharsInVocab tok cs)
    (junk : Nat → Nat → UInt8) :
    Encodes tok junk (utf8 cs) (tok.rankedEncode (utf8 cs)) ↔
      ∀ s ∈ tok.segments (utf8 cs), tok.Encoded s.1 → tok.AllLongest (tok.rankedPieces s.1) := by
  have hgreedy := (encode_greedy h.spm h.added hcs junk).encodes
  have hsegs : ∀ s ∈ tok.segments (utf8 cs), ∃ ds, s.1 = utf8 ds ∧ tok.Covers ds := by
    intro s hs
    obtain ⟨ds, hds, hsub⟩ := VgTokenizer.segments_utf8 h.added cs s hs
    exact ⟨ds, hds, hcs.covers hsub⟩
  rw [← idsOf_greedy_iff h hsegs]
  constructor
  · exact fun hranked => hgreedy.unique hranked
  · intro heq
    unfold VgTokenizer.rankedEncode
    rw [← heq]
    exact hgreedy

end Encode

section Example

/-- A vocabulary in which the rule of the lower rank does not make the longest entry. -/
def overlapTokenizer : VgTokenizer where
  vocab := [.ofBytes spaceMark, .ofBytes (txt "a"), .ofBytes (txt "b"), .ofBytes (txt "c"),
    .ofBytes (txt "bc"), .ofBytes (txt "ab")]
  merges := [(.ofBytes (txt "b"), .ofBytes (txt "c")), (.ofBytes (txt "a"), .ofBytes (txt "b"))]
  bosId := -1
  eosId := -1
  addBos := false
  gpt2ByteMap := false
  addDummyPrefix := true
  removeExtraWs := true
  added := []
  added_long := by simp

theorem rankedTokenizer_overlap : RankedTokenizer overlapTokenizer := by
  have hresults : ∀ m ∈ overlapTokenizer.merges,
      (overlapTokenizer.findTokenN (m.1.val ++ m.2.val)).isSome = true := by
    decide +kernel
  constructor
  case spm => rfl
  case rules => decide
  case results => exact fun m hm => VgTokenizer.findTokenN_isSome.1 (hresults m hm)
  case added =>
    intro i hi
    cases hi

theorem charsInVocab_overlap : CharsInVocab overlapTokenizer ['a', 'b', 'c'] := by
  have hhas (t : List UInt8) (h : (overlapTokenizer.findTokenN t).isSome = true) :
      overlapTokenizer.Has t := VgTokenizer.findTokenN_isSome.1 h
  constructor
  case chars =>
    intro c hc
    simp only [List.mem_cons, List.not_mem_nil, or_false] at hc
    rcases hc with rfl | rfl | rfl
    · exact hhas _ (by decide +kernel)
    · exact hhas _ (by decide +kernel)
    · exact hhas _ (by decide +kernel)
  case mark => exact fun _ => ⟨0, by decide +kernel⟩
  case terminated => decide

theorem encodes_overlap_iff :
    Encodes overlapTokenizer (fun _ _ => 0) (utf8 ['a', 'b', 'c'])
      (overlapTokenizer.rankedEncode (utf8 ['a', 'b', 'c'])) ↔
    ∀ s ∈ overlapTokenizer.segments (utf8 ['a', 'b', 'c']), overlapTokenizer.Encoded s.1 →
      overlapTokenizer.AllLongest (overlapTokenizer.rankedPieces s.1) :=
  encodes_rankedEncode_iff rankedTokenizer_overlap charsInVocab_overlap _

/-- On `abc` the ranked merges join `bc`, and the encoder takes `ab`. -/
theorem overlap_notRanked :
    ¬ ∀ (tok : VgTokenizer) (cs : List Char) (junk : Nat → Nat → UInt8),
      RankedTokenizer tok → CharsInVocab tok cs →
      Encodes tok junk (utf8 cs) (tok.rankedEncode (utf8 cs)) := by
  intro hclaim
  have hencodes := hclaim overlapTokenizer ['a', 'b', 'c'] (fun _ _ => 0)
    rankedTokenizer_overlap charsInVocab_overlap 8 (by decide +kernel)
  exact absurd hencodes (by decide +kernel)

end Example

end VgEngine.Tokenizer
