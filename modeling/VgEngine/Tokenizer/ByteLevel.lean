import VgEngine.Tokenizer.Emits

/-! Byte-level encoding and back: with a symbol for each byte and the results of all merge rules in
the vocabulary, the text of the ids is the text that was encoded. -/
namespace VgEngine.Tokenizer
open Bytes Lib Model RankedMerge

section Symbols

variable {b : UInt8} {bs rest : List UInt8} {fuel cp : Nat}

theorem fwdCp_lt (b : UInt8) : fwdCp b < 0x144 := by
  have hall : ∀ n < 256, fwdCp (UInt8.ofNat n) < 0x144 := by decide +kernel
  simpa using hall b.toNat b.toNat_lt

/-- The two directions of the byte map agree on every byte. -/
theorem renderCp_fwdCp (b : UInt8) : renderCp (fwdCp b) (encodeByteFwd b) = [b] := by
  have hall : ∀ n < 256, renderCp (fwdCp (UInt8.ofNat n)) (encodeByteFwd (UInt8.ofNat n)) =
      [UInt8.ofNat n] := by
    decide +kernel
  simpa using hall b.toNat b.toNat_lt

theorem utf8Seq_ascii (hb : b < 0x80) : utf8Seq (b :: rest) = (b.toNat, 1) := by
  have hb' : b.toNat < 0x80 := UInt8.lt_iff_toNat_lt.1 hb
  simp [utf8Seq, hb']

theorem utf8Seq_two (hlow : 0x80 ≤ cp) (hhigh : cp < 0x800) :
    utf8Seq (UInt8.ofNat (0xC0 + cp / 64) :: UInt8.ofNat (0x80 + cp % 64) :: rest) = (cp, 2) := by
  have h0 : (UInt8.ofNat (0xC0 + cp / 64)).toNat = 0xC0 + cp / 64 := by
    rw [UInt8.toNat_ofNat']
    omega
  have h1 : (UInt8.ofNat (0x80 + cp % 64)).toNat = 0x80 + cp % 64 := by
    rw [UInt8.toNat_ofNat']
    omega
  have hcont : isCont (0x80 + cp % 64) = true := by
    simp [isCont]
    omega
  unfold utf8Seq
  simp only [List.getD_cons_zero, List.getD_cons_succ, h0, h1, hcont]
  rw [if_neg (by omega), if_pos ⟨by omega, by omega, trivial⟩]
  congr 1
  omega

theorem utf8Seq_symbol (b : UInt8) (rest : List UInt8) :
    utf8Seq (encodeByteFwd b ++ rest) = (fwdCp b, (encodeByteFwd b).length) := by
  have hcp := fwdCp_lt b
  unfold encodeByteFwd
  dsimp only
  split_ifs with hsmall
  · have hb : (UInt8.ofNat (fwdCp b)).toNat = fwdCp b := by
      rw [UInt8.toNat_ofNat']
      omega
    have hlt : UInt8.ofNat (fwdCp b) < 0x80 := by
      rw [UInt8.lt_iff_toNat_lt, hb]
      exact hsmall
    rw [List.singleton_append, utf8Seq_ascii hlt, hb]
    rfl
  · exact utf8Seq_two (by omega) (by omega)

theorem encodeByteFwd_pos (b : UInt8) : 0 < (encodeByteFwd b).length := by
  unfold encodeByteFwd
  dsimp only
  split_ifs <;> simp

/-- A piece made of whole symbols is rendered as their bytes. -/
theorem byteRender_symbols (hfuel : (bs.flatMap encodeByteFwd).length ≤ fuel) :
    byteRender fuel (bs.flatMap encodeByteFwd) = bs := by
  induction bs generalizing fuel with
  | nil => cases fuel <;> simp [byteRender]
  | cons b bs ih =>
    have hpos := encodeByteFwd_pos b
    rw [List.flatMap_cons, List.length_append] at hfuel
    obtain ⟨fuel, rfl⟩ : ∃ k, fuel = k + 1 := ⟨fuel - 1, by omega⟩
    have hne : encodeByteFwd b ++ bs.flatMap encodeByteFwd ≠ [] := by
      intro hnil
      rw [(List.append_eq_nil_iff.1 hnil).1] at hpos
      cases hpos
    rw [List.flatMap_cons]
    unfold byteRender
    rw [if_neg hne, utf8Seq_symbol]
    dsimp only
    rw [List.take_left, List.drop_left, renderCp_fwdCp, ih (by omega)]
    rfl

theorem byteRender_ascii {text : List UInt8} (htext : ∀ c ∈ text, c < 0x80)
    (hfuel : text.length ≤ fuel) : byteRender fuel text = text := by
  induction text generalizing fuel with
  | nil => cases fuel <;> simp [byteRender]
  | cons c text ih =>
    rw [List.length_cons] at hfuel
    obtain ⟨fuel, rfl⟩ : ∃ k, fuel = k + 1 := ⟨fuel - 1, by omega⟩
    have hc : c < 0x80 := htext c List.mem_cons_self
    have hc' : c.toNat < 0x80 := UInt8.lt_iff_toNat_lt.1 hc
    have hrest : byteRender fuel text = text :=
      ih (fun d hd => htext d (List.mem_cons_of_mem c hd)) (by omega)
    unfold byteRender
    rw [if_neg (List.cons_ne_nil c text), utf8Seq_ascii hc]
    dsimp only
    unfold renderCp
    rw [if_neg (by omega), if_neg (by omega), List.drop_one, List.tail_cons, hrest]
    rfl

end Symbols

section Words

variable {p : List UInt8}

theorem wordRun_isPrefix (p : List UInt8) : wordRun p <+: p := by
  unfold wordRun
  dsimp only
  split_ifs <;> exact List.takeWhile_prefix _

theorem wordRun_append (p : List UInt8) : wordRun p ++ p.drop (wordRun p).length = p :=
  List.prefix_iff_eq_append.1 (wordRun_isPrefix p)

theorem wordRun_ne_nil (hp : p ≠ []) : wordRun p ≠ [] := by
  obtain ⟨c, q, rfl⟩ := List.exists_cons_of_ne_nil hp
  unfold wordRun
  simp only [List.head?_cons, Option.getD_some]
  by_cases halpha : tcAlpha c = true
  · simp [halpha]
  by_cases hdigit : tcDigit c = true
  · simp [halpha, hdigit]
  by_cases hspace : tcSpace c = true
  · simp [halpha, hdigit, hspace]
  · simp [halpha, hdigit, hspace, tcOther]

namespace VgTokenizer

variable {tok : VgTokenizer} {w : List (List UInt8)}

/-- The words of a text, each with the space that belongs to it. -/
def words : Nat → List UInt8 → List (List UInt8)
  | 0, _ => []
  | fuel + 1, p =>
    if p = [] then []
    else
      let lead := p.head? == some 32
      let p := if lead then p.tail else p
      let run := wordRun p
      ((if lead then [32] else []) ++ run) :: words fuel (p.drop run.length)

theorem words_flatten {fuel : Nat} (hfuel : p.length < fuel) : (words fuel p).flatten = p := by
  induction fuel generalizing p with
  | zero => omega
  | succ fuel ih =>
    unfold words
    split_ifs with hp
    · simp [hp]
    · obtain ⟨c, q, rfl⟩ := List.exists_cons_of_ne_nil hp
      rw [List.length_cons] at hfuel
      by_cases hlead : c = 32
      · subst hlead
        simp only [List.head?_cons, BEq.rfl, if_true, List.tail_cons, List.flatten_cons]
        rw [ih]
        · rw [List.append_assoc, wordRun_append]
          rfl
        · rw [List.length_drop]
          omega
      · have hrun : 0 < (wordRun (c :: q)).length := List.length_pos_iff.2 (wordRun_ne_nil hp)
        have hhead : (some c == some (32 : UInt8)) = false := by simpa using hlead
        simp only [List.head?_cons, hhead, Bool.false_eq_true, if_false, List.nil_append,
          List.flatten_cons]
        rw [ih, wordRun_append]
        rw [List.length_drop, List.length_cons]
        omega

/-- The id that a piece is emitted as. -/
def idOf (tok : VgTokenizer) (piece : List UInt8) : Int := ((tok.findTokenN piece).getD 0 : Nat)

theorem emitWord_eq (b : IdBuffer) : tok.emitWord w b = b.puts (w.map tok.idOf) := by
  unfold emitWord IdBuffer.puts
  rw [List.foldl_map]
  rfl

/-- No rule joins more than the merge buffer holds. -/
def MergesFit (tok : VgTokenizer) : Prop :=
  ∀ m ∈ tok.merges, (m.1.val ++ m.2.val).length ≤ 512

/-- The pieces of a word: its bytes, merged by rank. -/
def wordPieces (tok : VgTokenizer) (word : List UInt8) : List (List UInt8) :=
  merged tok.findMerge (word.map encodeByteFwd)

/-- The pieces of a text under byte-level encoding. -/
def bytePieces (tok : VgTokenizer) (text : List UInt8) : List (List UInt8) :=
  (words (text.length + 1) text).flatMap tok.wordPieces

/-- With pieces that fit, the loop is ranked merging if and only if its result fits: pieces only
grow, so that a piece that has been too long is part of one that still is. -/
theorem bpeWordApply_cases {fuel : Nat} (hfuel : w.length ≤ fuel) (hw : ∀ p ∈ w, p.length ≤ 512) :
    ((∀ p ∈ mergeLoop tok.findMerge fuel w, p.length ≤ 512) ∧
        tok.bpeWordApply fuel w = some (mergeLoop tok.findMerge fuel w)) ∨
      ((∃ p ∈ mergeLoop tok.findMerge fuel w, 512 < p.length) ∧ tok.bpeWordApply fuel w = none) := by
  induction fuel generalizing w with
  | zero => exact Or.inl ⟨hw, rfl⟩
  | succ fuel ih =>
    unfold bpeWordApply mergeLoop
    cases hbest : bestPair tok.findMerge w with
    | none => exact Or.inl ⟨hw, rfl⟩
    | some best =>
      obtain ⟨before, a, b, behind, rfl, hlength, -⟩ :=
        exists_of_pairRank (isBest_of_bestPair hbest).ranked
      have hfirst : (before ++ a :: b :: behind).getD best.2 [] = a := by simp [← hlength]
      have hsecond : (before ++ a :: b :: behind).getD (best.2 + 1) [] = b := by simp [← hlength]
      have hjoined : mergeAt best.2 (before ++ a :: b :: behind) = before ++ (a ++ b) :: behind := by
        rw [← hlength, mergeAt_append]
      have hfuel' : (before ++ (a ++ b) :: behind).length ≤ fuel := by
        simp only [List.length_append, List.length_cons] at hfuel ⊢
        omega
      dsimp only
      rw [hfirst, hsecond, hjoined]
      by_cases hroom : (a ++ b).length ≤ 512
      · rw [if_pos hroom]
        apply ih hfuel'
        intro p hp
        rcases List.mem_append.1 hp with hp | hp
        · exact hw p (List.mem_append_left _ hp)
        · rcases List.mem_cons.1 hp with rfl | hp
          · exact hroom
          · exact hw p (by simp [hp])
      · have hsteps : Relation.ReflTransGen (Joins tok.findMerge) (before ++ (a ++ b) :: behind)
            (mergeLoop tok.findMerge fuel (before ++ (a ++ b) :: behind)) :=
          (mergeLoop_spec fuel hfuel').1
        obtain ⟨q, hq, hinfix⟩ := steps_infix hsteps (a ++ b) (by simp)
        rw [if_neg hroom]
        exact Or.inr ⟨⟨q, hq, (Nat.lt_of_not_le hroom).trans_le hinfix.length_le⟩, rfl⟩

/-- The pieces that a word is merged to, by rank and without a bound, fit into the buffer. -/
def WordFits (tok : VgTokenizer) (word : List UInt8) : Prop :=
  ∀ p ∈ tok.wordPieces word, p.length ≤ 512

instance (tok : VgTokenizer) (word : List UInt8) : Decidable (tok.WordFits word) :=
  inferInstanceAs (Decidable (∀ p ∈ tok.wordPieces word, p.length ≤ 512))

theorem encodeByteFwd_le (b : UInt8) : (encodeByteFwd b).length ≤ 2 := by
  unfold encodeByteFwd
  dsimp only
  split_ifs <;> simp

theorem wordApply_cases (tok : VgTokenizer) (word : List UInt8) :
    (tok.WordFits word ∧ tok.bpeWordApply (word.map encodeByteFwd).length (word.map encodeByteFwd) =
        some (tok.wordPieces word)) ∨
      (¬ tok.WordFits word ∧
        tok.bpeWordApply (word.map encodeByteFwd).length (word.map encodeByteFwd) = none) := by
  have hsymbols : ∀ p ∈ word.map encodeByteFwd, p.length ≤ 512 := by
    intro p hp
    obtain ⟨b, -, rfl⟩ := List.mem_map.1 hp
    exact (encodeByteFwd_le b).trans (by decide)
  rcases bpeWordApply_cases (Nat.le_refl _) hsymbols with hfits | ⟨⟨p, hp, hlong⟩, hnone⟩
  · exact Or.inl hfits
  · exact Or.inr ⟨fun hfits => Nat.not_lt.2 (hfits p hp) hlong, hnone⟩

/-- A table without too long rules is enough. -/
theorem MergesFit.wordFits (h : tok.MergesFit) (word : List UInt8) : tok.WordFits word := by
  apply merged_forall
  · intro a b r hr _ _
    obtain ⟨m, hm, rfl, rfl⟩ := mem_of_mergeRule (mergeRule_of_findMerge hr)
    exact h m hm
  · intro p hp
    obtain ⟨b, -, rfl⟩ := List.mem_map.1 hp
    exact (encodeByteFwd_le b).trans (by decide)

/-- One word of the loop, and the text behind it. -/
theorem encodeWords_cons (tok : VgTokenizer) (fuel : Nat) (hp : p ≠ []) : ∃ word rest,
    rest.length < p.length ∧ words (fuel + 1) p = word :: words fuel rest ∧
      ∀ b, tok.encodeWords (fuel + 1) p b =
        (tok.bpeWordApply (word.map encodeByteFwd).length (word.map encodeByteFwd)).bind
          fun w => tok.encodeWords fuel rest (tok.emitWord w b) := by
  generalize hlead : (p.head? == some 32) = lead
  have hrun : ¬ (wordRun (if lead = true then p.tail else p) = [] ∧ lead = false) := by
    rintro ⟨hnil, rfl⟩
    exact wordRun_ne_nil hp hnil
  have hword : (if lead = true then [encodeByteFwd 32] else []) ++
      (wordRun (if lead = true then p.tail else p)).map encodeByteFwd =
      ((if lead = true then [32] else []) ++
        wordRun (if lead = true then p.tail else p)).map encodeByteFwd := by
    cases lead <;> simp
  refine ⟨(if lead = true then [32] else []) ++ wordRun (if lead = true then p.tail else p),
    (if lead = true then p.tail else p).drop
      (wordRun (if lead = true then p.tail else p)).length, ?_, ?_, fun b => ?_⟩
  · have hpos := List.length_pos_iff.2 hp
    rw [List.length_drop]
    cases lead with
    | true =>
      rw [if_pos rfl, List.length_tail]
      omega
    | false =>
      have hrun := List.length_pos_iff.2 (wordRun_ne_nil hp)
      simp only [Bool.false_eq_true, if_false]
      omega
  · rw [words, if_neg hp]
    dsimp only
    rw [hlead]
  · rw [encodeWords, if_neg hp]
    dsimp only
    rw [hlead, if_neg hrun, hword]
    cases tok.bpeWordApply _ _ <;> rfl

theorem encodeWords_emits {fuel : Nat} (hfuel : p.length < fuel)
    (hfit : ∀ word ∈ words fuel p, tok.WordFits word) :
    Emits (tok.encodeWords fuel p) (((words fuel p).flatMap tok.wordPieces).map tok.idOf) := by
  induction fuel generalizing p with
  | zero => omega
  | succ fuel ih =>
    intro b
    by_cases hp : p = []
    · rw [encodeWords, words, if_pos hp, if_pos hp]
      rfl
    · obtain ⟨word, rest, hrest, hwords, hstep⟩ := encodeWords_cons tok fuel hp
      rw [hwords] at hfit ⊢
      rcases wordApply_cases tok word with ⟨-, hsome⟩ | ⟨hover, -⟩
      · rw [hstep, hsome, Option.bind_some, ih (by omega)
          fun w hw => hfit w (List.mem_cons_of_mem word hw), emitWord_eq,
          ← IdBuffer.puts_append, ← List.map_append, List.flatMap_cons]
      · exact absurd (hfit word List.mem_cons_self) hover

/-- A word that does not fit ends the encoding. -/
theorem encodeWords_fails {fuel : Nat} {word : List UInt8} (hword : word ∈ words fuel p)
    (hover : ¬ tok.WordFits word) : Fails (tok.encodeWords fuel p) := by
  induction fuel generalizing p with
  | zero => cases hword
  | succ fuel ih =>
    intro b
    by_cases hp : p = []
    · rw [words, if_pos hp] at hword
      cases hword
    · obtain ⟨first, rest, -, hwords, hstep⟩ := encodeWords_cons tok fuel hp
      rw [hwords] at hword
      rw [hstep]
      rcases wordApply_cases tok first with ⟨hfits, hsome⟩ | ⟨-, hnone⟩
      · rw [hsome, Option.bind_some]
        rcases List.mem_cons.1 hword with rfl | hrest
        · exact absurd hfits hover
        · exact ih hrest _
      · rw [hnone]
        rfl

end VgTokenizer

end Words

section RoundTrip

variable {tok : VgTokenizer}

/-- A byte-level tokenizer with a symbol for each byte, the result of each of its rules, no rule
beyond the merge buffer, and reserved tokens in ASCII. -/
structure ByteComplete (tok : VgTokenizer) : Prop where
  byteLevel : tok.gpt2ByteMap = true
  bytes : ∀ b, tok.Has (encodeByteFwd b)
  merges : ∀ m ∈ tok.merges, tok.Has (m.1.val ++ m.2.val)
  fit : tok.MergesFit
  ascii : ∀ i ∈ tok.added, ∀ c ∈ (tok.vocab.get i).val, c < 0x80

/-- Whole symbols, and an entry of the vocabulary. -/
structure IsPiece (tok : VgTokenizer) (piece : List UInt8) : Prop where
  symbols : ∃ bs : List UInt8, piece = bs.flatMap encodeByteFwd
  entry : tok.Has piece

theorem wordPieces_isPiece (h : ByteComplete tok) (word : List UInt8) :
    ∀ piece ∈ tok.wordPieces word, IsPiece tok piece := by
  apply merged_forall
  · rintro a b r hr ⟨⟨as, rfl⟩, -⟩ ⟨⟨bs, rfl⟩, -⟩
    obtain ⟨m, hm, hma, hmb⟩ := VgTokenizer.mem_of_mergeRule (VgTokenizer.mergeRule_of_findMerge hr)
    refine ⟨⟨as ++ bs, by simp⟩, ?_⟩
    rw [← hma, ← hmb]
    exact h.merges m hm
  · intro piece hpiece
    obtain ⟨b, -, rfl⟩ := List.mem_map.1 hpiece
    exact ⟨⟨[b], by simp⟩, h.bytes b⟩

theorem textOf_idOf {piece : List UInt8} (h : tok.Has piece) :
    tok.textOf (tok.idOf piece) = some piece := by
  obtain ⟨i, hi⟩ := h.exists_find
  unfold VgTokenizer.idOf VgTokenizer.textOf
  rw [hi, if_neg (by simp)]
  exact VgTokenizer.tokenText_of_findTokenN hi

theorem piece_idOf {piece : List UInt8} (h : tok.Has piece) :
    tok.piece (tok.idOf piece) = tok.render piece := by
  unfold VgTokenizer.piece
  rw [textOf_idOf h]
  rfl

/-- Rendered one by one, pieces of whole symbols give the bytes of all of them. -/
theorem render_pieces (hbyte : tok.gpt2ByteMap = true) {pieces : List (List UInt8)}
    (hpieces : ∀ piece ∈ pieces, IsPiece tok piece) : ∃ bs : List UInt8,
      pieces.flatten = bs.flatMap encodeByteFwd ∧ (pieces.map tok.render).flatten = bs := by
  induction pieces with
  | nil => exact ⟨[], rfl, rfl⟩
  | cons piece pieces ih =>
    obtain ⟨bs, hflatten, hrender⟩ := ih fun p hp => hpieces p (List.mem_cons_of_mem piece hp)
    obtain ⟨⟨as, rfl⟩, -⟩ := hpieces piece List.mem_cons_self
    refine ⟨as ++ bs, by simp [hflatten], ?_⟩
    have has : tok.render (as.flatMap encodeByteFwd) = as := by
      unfold VgTokenizer.render
      rw [if_pos hbyte, byteRender_symbols (Nat.le_refl _)]
    rw [List.map_cons, List.flatten_cons, hrender, has]

/-- The symbols of a text determine it. -/
theorem flatMap_encodeByteFwd_inj {as bs : List UInt8}
    (h : as.flatMap encodeByteFwd = bs.flatMap encodeByteFwd) : as = bs := by
  have hbs := byteRender_symbols (Nat.le_refl (bs.flatMap encodeByteFwd).length)
  rw [← byteRender_symbols (Nat.le_refl (as.flatMap encodeByteFwd).length), h, hbs]

theorem wordPieces_render (h : ByteComplete tok) (word : List UInt8) :
    ((tok.wordPieces word).map tok.render).flatten = word := by
  obtain ⟨bs, hflatten, hrender⟩ := render_pieces h.byteLevel (wordPieces_isPiece h word)
  rw [hrender]
  apply flatMap_encodeByteFwd_inj
  rw [← hflatten, VgTokenizer.wordPieces, merged_flatten]
  rfl

theorem bytePieces_render (h : ByteComplete tok) (text : List UInt8) :
    (((tok.bytePieces text).map tok.idOf).map tok.piece).flatten = text := by
  have hpieces : ∀ piece ∈ tok.bytePieces text, IsPiece tok piece := by
    intro piece hpiece
    obtain ⟨word, -, hword⟩ := List.mem_flatMap.1 hpiece
    exact wordPieces_isPiece h word piece hword
  have hrender : ((tok.bytePieces text).map tok.idOf).map tok.piece =
      (tok.bytePieces text).map tok.render := by
    rw [List.map_map]
    apply List.map_congr_left
    intro piece hpiece
    exact piece_idOf (hpieces piece hpiece).entry
  have hwords (ws : List (List UInt8)) :
      ((ws.flatMap tok.wordPieces).map tok.render).flatten = ws.flatten := by
    induction ws with
    | nil => rfl
    | cons w ws ih =>
      rw [List.flatMap_cons, List.map_append, List.flatten_append, wordPieces_render h, ih,
        List.flatten_cons]
  rw [hrender, VgTokenizer.bytePieces, hwords, VgTokenizer.words_flatten (Nat.lt_succ_self _)]

/-- A reserved token of ASCII bytes is rendered as it is written. -/
theorem piece_added (h : ByteComplete tok) {i : Fin tok.vocab.length} (hi : i ∈ tok.added) :
    tok.piece ((i.val : Nat) : Int) = (tok.vocab.get i).val := by
  have htext : tok.textOf ((i.val : Nat) : Int) = some (tok.vocab.get i).val := by
    simp [VgTokenizer.textOf, VgTokenizer.tokenText]
  unfold VgTokenizer.piece
  rw [htext]
  change tok.render (tok.vocab.get i).val = _
  unfold VgTokenizer.render
  rw [if_pos h.byteLevel, byteRender_ascii (h.ascii i hi) (Nat.le_refl _)]

theorem encode_emits (h : ByteComplete tok) (junk : Nat → Nat → UInt8) (text : List UInt8) :
    Emits (tok.encodeImpl (fun n => tok.encodeBody (junk n)) text)
      (VgTokenizer.idsOf (fun seg => (tok.bytePieces seg).map tok.idOf) (tok.segments text)) := by
  apply VgTokenizer.encodeImpl_emits
  · intro
    rfl
  · intro s _ _ n b
    unfold VgTokenizer.encodeBody
    rw [if_pos h.byteLevel]
    exact VgTokenizer.encodeWords_emits (Nat.lt_succ_self _) (fun word _ => h.fit.wordFits word) b

/-- Decoding what was encoded gives the text back, whatever the heap holds, as soon as the array
has room for the `n` ids. -/
theorem decodeSequence_encode (h : ByteComplete tok) (junk : Nat → Nat → UInt8)
    {text : List UInt8} (htext : 0 ∉ text) :
    ∃ n, ∀ room, ∃ b, tok.encode junk text room = some b ∧ b.n = n ∧
      (n ≤ room → tok.decodeSequence b.written = text) := by
  refine ⟨_, fun room => ⟨_, (encode_emits h junk text).written room, rfl, fun hroom => ?_⟩⟩
  have hpieces : ((VgTokenizer.idsOf (fun seg => (tok.bytePieces seg).map tok.idOf)
      (tok.segments text)).map tok.piece).flatten = text := by
    rw [VgTokenizer.idsOf_pieces, VgTokenizer.segments_flatten]
    · exact fun s _ => bytePieces_render h s.1
    · intro s hs a ha
      obtain ⟨i, hi, rfl⟩ := VgTokenizer.segments_added tok text s hs a ha
      rw [piece_added h hi]
      simp [VgTokenizer.addedText, VgTokenizer.tokenText]
  have hmarked (ids : List Int) : tok.startsMarked ids text = false := by
    simp [VgTokenizer.startsMarked, h.byteLevel]
  rw [List.take_of_length_le hroom, decodeSequence_eq, hpieces, hmarked, if_neg (by decide)]
  apply cstr_eq_self
  rintro b hb rfl
  exact htext hb

/-- The symbols of all bytes, a piece of two of them, and a reserved token. -/
def sampleTokenizer : VgTokenizer where
  vocab := ((List.range 256).map fun n => .ofBytes (encodeByteFwd (UInt8.ofNat n))) ++
    [.ofBytes (txt "ab"), .ofBytes (txt "<s>")]
  merges := [(.ofBytes (txt "a"), .ofBytes (txt "b"))]
  bosId := -1
  eosId := -1
  addBos := false
  gpt2ByteMap := true
  addDummyPrefix := true
  removeExtraWs := true
  added := [⟨257, by decide +kernel⟩]
  added_long := by decide +kernel

theorem byteComplete_sample : ByteComplete sampleTokenizer := by
  constructor
  case byteLevel => rfl
  case bytes =>
    intro b
    have hall : ∀ n < 256, sampleTokenizer.tokenText n = some (encodeByteFwd (UInt8.ofNat n)) := by
      decide +kernel
    exact ⟨b.toNat, by simpa using hall b.toNat b.toNat_lt⟩
  case merges =>
    intro m hm
    rw [List.mem_singleton.1 hm]
    exact ⟨256, by decide +kernel⟩
  case fit =>
    intro m hm
    rw [List.mem_singleton.1 hm]
    decide +kernel
  case ascii => decide +kernel

theorem decodeSequence_encode_sample : ∃ n, ∀ room, ∃ b,
    sampleTokenizer.encode (fun _ _ => 0) (txt " ab<s>ab ") room = some b ∧ b.n = n ∧
      (n ≤ room → sampleTokenizer.decodeSequence b.written = txt " ab<s>ab ") :=
  decodeSequence_encode byteComplete_sample _ (by decide +kernel)

end RoundTrip

end VgEngine.Tokenizer
