import VgEngine.Tokenizer.Ranked

/-! The cursor of the SentencePiece loop: each pass moves it over a match, or over as many bytes as
the first one announces, whether these are there or not. -/
namespace VgEngine.Tokenizer
open Bytes Lib Utf8

namespace VgTokenizer

/-- How far a pass moves over a text. -/
def advance (tok : VgTokenizer) (s : List UInt8) : Nat :=
  let need := needCp (s.headD 0)
  ((tok.longestMatch s need).map Prod.snd).getD need

/-- Wherever the matches lead in a text, the bytes are there that the first one announces. -/
inductive Whole (tok : VgTokenizer) : List UInt8 → Prop
  | done : Whole tok []
  | pass {c : UInt8} {q : List UInt8} (hroom : needCp c ≤ (c :: q).length)
    (hrest : Whole tok ((c :: q).drop (tok.advance (c :: q)))) : Whole tok (c :: q)

/-- The cursor moves from one place of the block to another. -/
def Moves (tok : VgTokenizer) (block : List UInt8) (pos pos' : Nat) : Prop :=
  ∃ id len, tok.spmPass (block.drop pos) = some (id, len) ∧ pos' = pos + len

def Reached (tok : VgTokenizer) (block : List UInt8) (pos : Nat) : Prop :=
  Relation.ReflTransGen (tok.Moves block) 0 pos

/-- Each pass moves the cursor on, no pass moves it behind the terminator at `stop`, and there the
loop ends. -/
structure CursorInText (tok : VgTokenizer) (block : List UInt8) (stop : Nat) : Prop where
  advances : ∀ pos pos', tok.Reached block pos → tok.Moves block pos pos' → pos < pos'
  inside : ∀ pos, tok.Reached block pos → pos ≤ stop
  arrives : tok.Reached block stop
  ends : tok.spmPass (block.drop stop) = none

variable {tok : VgTokenizer} {s : List UInt8} {c : UInt8} {q : List UInt8}

theorem spmPass_terminated (tok : VgTokenizer) (hs : 0 ∉ c :: q) (junk : List UInt8) :
    ∃ id, tok.spmPass (c :: q ++ 0 :: junk) = some (id, tok.advance (c :: q)) := by
  rw [spmPass_cons hs]
  unfold advance
  dsimp only [List.headD_cons]
  cases tok.longestMatch (c :: q) (needCp c) with
  | none => exact ⟨0, rfl⟩
  | some found => exact ⟨found.1, rfl⟩

theorem le_advance (tok : VgTokenizer) (c : UInt8) (q : List UInt8) :
    needCp c ≤ tok.advance (c :: q) := by
  unfold advance
  dsimp only [List.headD_cons]
  cases hmatch : tok.longestMatch (c :: q) (needCp c) with
  | none => exact Nat.le_refl _
  | some found =>
    have hfound : IsMatch tok (c :: q) (needCp c) found.1 found.2 := .of_longestMatch hmatch
    exact hfound.need_le

theorem advance_le (tok : VgTokenizer) (hroom : needCp c ≤ (c :: q).length) :
    tok.advance (c :: q) ≤ (c :: q).length := by
  unfold advance
  dsimp only [List.headD_cons]
  cases hmatch : tok.longestMatch (c :: q) (needCp c) with
  | none => exact hroom
  | some found =>
    have hfound : IsMatch tok (c :: q) (needCp c) found.1 found.2 := .of_longestMatch hmatch
    exact hfound.le_length

theorem Greedy.whole {pieces : List (Option Nat × List UInt8)} (h : Greedy tok s pieces) :
    Whole tok s := by
  induction h with
  | done => exact .done
  | @hit c q id len pieces hmatch hrest ih =>
    have hfound : IsMatch tok (c :: q) (needCp c) id len := .of_longestMatch hmatch
    have hadvance : tok.advance (c :: q) = len := by
      unfold advance
      dsimp only [List.headD_cons]
      rw [hmatch]
      rfl
    refine .pass (hfound.need_le.trans hfound.le_length) ?_
    rwa [hadvance]
  | @miss c q pieces hmatch hroom hrest ih =>
    have hadvance : tok.advance (c :: q) = needCp c := by
      unfold advance
      dsimp only [List.headD_cons]
      rw [hmatch]
      rfl
    refine .pass hroom ?_
    rwa [hadvance]

/-- The greedy match comes to its end exactly in a text that is whole. -/
theorem Whole.exists_greedy (h : Whole tok s) : ∃ pieces, Greedy tok s pieces := by
  induction h with
  | done => exact ⟨[], .done⟩
  | @pass c q hroom hrest ih =>
    obtain ⟨pieces, hpieces⟩ := ih
    unfold advance at hpieces
    dsimp only [List.headD_cons] at hpieces
    cases hmatch : tok.longestMatch (c :: q) (needCp c) with
    | none =>
      rw [hmatch] at hpieces
      exact ⟨_, .miss hmatch hroom hpieces⟩
    | some found =>
      rw [hmatch] at hpieces
      exact ⟨_, .hit hmatch hpieces⟩

/-- A text in UTF-8 is whole, whatever the vocabulary. -/
theorem whole_utf8 {cs : List Char} (h : s <:+ utf8 cs) : Whole tok s := by
  have hgreedy : ∃ pieces, Greedy tok s pieces := exists_greedy h
  obtain ⟨pieces, hpieces⟩ := hgreedy
  exact hpieces.whole

/-- A loop that has left the text for bytes without a terminator runs out of the block. -/
theorem encodePieces_unterminated {fuel : Nat} {block : List UInt8} (hblock : 0 ∉ block) :
    Fails (tok.encodePieces fuel block) := by
  intro b
  cases fuel with
  | zero => rfl
  | succ fuel =>
    have hpass : tok.spmPass block = none := by
      unfold spmPass strlenAt
      cases block with
      | nil => rfl
      | cons c q =>
        dsimp only
        rw [if_neg hblock]
        split_ifs <;> rfl
    have hhead : block.head? ≠ some 0 := fun h0 => hblock (List.mem_of_head? h0)
    rw [encodePieces_succ, if_neg hhead, hpass]
    rfl

theorem encodePieces_fails {fuel : Nat} {junk : List UInt8} (h : ¬ Whole tok s) (hs : 0 ∉ s)
    (hjunk : 0 ∉ junk) : Fails (tok.encodePieces fuel (s ++ 0 :: junk)) := by
  induction fuel generalizing s with
  | zero => exact fun _ => rfl
  | succ fuel ih =>
    intro b
    cases s with
    | nil => exact absurd .done h
    | cons c q =>
      have hc : (c :: q ++ 0 :: junk).head? ≠ some 0 := by
        intro h0
        exact hs (Option.some.inj h0 ▸ List.mem_cons_self)
      obtain ⟨id, hpass⟩ := spmPass_terminated tok hs junk
      rw [encodePieces_succ, if_neg hc, hpass, Option.bind_some]
      dsimp only
      have hneed := le_advance tok c q
      by_cases hroom : tok.advance (c :: q) ≤ (c :: q).length
      · rw [List.drop_append_of_le_length hroom]
        refine ih (fun hrest => h (.pass (hneed.trans hroom) hrest)) ?_ _
        exact fun h0 => hs (List.mem_of_mem_drop h0)
      · apply encodePieces_unterminated
        obtain ⟨k, hk⟩ : ∃ k, tok.advance (c :: q) = (c :: q).length + (k + 1) :=
          ⟨tok.advance (c :: q) - (c :: q).length - 1, by omega⟩
        rw [hk, List.drop_length_add_append, List.drop_succ_cons]
        exact fun h0 => hjunk (List.mem_of_mem_drop h0)

theorem Moves.lt {block : List UInt8} {pos pos' : Nat} (h : tok.Moves block pos pos') :
    pos < pos' := by
  obtain ⟨id, len, hpass, rfl⟩ := h
  unfold spmPass at hpass
  split at hpass
  · cases hpass
  rename_i c q hblock
  split_ifs at hpass
  obtain ⟨s, -, hstep⟩ := Option.map_eq_some_iff.1 hpass
  have hpos := needCp_pos c
  cases hmatch : tok.longestMatch s (needCp c) with
  | none =>
    rw [hmatch] at hstep
    obtain ⟨-, rfl⟩ := Prod.mk.inj hstep
    omega
  | some found =>
    have hfound : IsMatch tok s (needCp c) found.1 found.2 := .of_longestMatch hmatch
    have hneed := hfound.need_le
    rw [hmatch] at hstep
    obtain ⟨-, rfl⟩ := Prod.mk.inj hstep
    omega

section Text

variable {junk : List UInt8} {pos : Nat}

theorem drop_terminated (hpos : pos ≤ s.length) :
    (s ++ 0 :: junk).drop pos = s.drop pos ++ 0 :: junk := List.drop_append_of_le_length hpos

/-- From a place of the text, the cursor moves by the advance of what is left. -/
theorem moves_iff (hs : 0 ∉ s) (hrest : s.drop pos = c :: q) {pos' : Nat} :
    tok.Moves (s ++ 0 :: junk) pos pos' ↔ pos' = pos + tok.advance (c :: q) := by
  have hpos : pos ≤ s.length := by
    by_contra hover
    rw [List.drop_eq_nil_of_le (by omega)] at hrest
    cases hrest
  have hzero : 0 ∉ c :: q := by
    rw [← hrest]
    exact fun h0 => hs (List.mem_of_mem_drop h0)
  obtain ⟨id, hpass⟩ := spmPass_terminated tok hzero junk
  unfold Moves
  rw [drop_terminated hpos, hrest, hpass]
  constructor
  · rintro ⟨id', len, heq, rfl⟩
    obtain ⟨-, rfl⟩ := Prod.mk.inj (Option.some.inj heq)
    rfl
  · rintro rfl
    exact ⟨id, _, rfl, rfl⟩

theorem not_moves_stop {pos' : Nat} : ¬ tok.Moves (s ++ 0 :: junk) s.length pos' := by
  rintro ⟨id, len, hpass, -⟩
  rw [List.drop_left] at hpass
  cases hpass

/-- From a place of a whole text the cursor comes to the terminator, and not behind it. -/
theorem Whole.reaches (h : Whole tok (s.drop pos)) (hs : 0 ∉ s) (hpos : pos ≤ s.length) :
    Relation.ReflTransGen (tok.Moves (s ++ 0 :: junk)) pos s.length ∧
      ∀ pos', Relation.ReflTransGen (tok.Moves (s ++ 0 :: junk)) pos pos' → pos' ≤ s.length := by
  generalize hrest : s.drop pos = rest at h
  induction h generalizing pos with
  | done =>
    have hstop : pos = s.length := by
      have hlength := List.drop_eq_nil_iff.1 hrest
      omega
    subst hstop
    refine ⟨.refl, fun pos' hreach => ?_⟩
    rcases hreach.cases_head with rfl | ⟨next, hmove, -⟩
    · exact Nat.le_refl _
    · exact absurd hmove not_moves_stop
  | @pass c q hroom hwhole ih =>
    have hlength := congrArg List.length hrest
    have hadvance := advance_le tok hroom
    rw [List.length_drop] at hlength
    have hnext : s.drop (pos + tok.advance (c :: q)) = (c :: q).drop (tok.advance (c :: q)) := by
      rw [← List.drop_drop, hrest]
    obtain ⟨hstop, hinside⟩ := ih (by omega) hnext
    refine ⟨.head ((moves_iff hs hrest).2 rfl) hstop, fun pos' hreach => ?_⟩
    rcases hreach.cases_head with rfl | ⟨next, hmove, hreach⟩
    · exact hpos
    · rw [(moves_iff hs hrest).1 hmove] at hreach
      exact hinside pos' hreach

/-- A cursor that stays in the text finds everywhere the bytes that are announced. -/
theorem whole_of_inside (hs : 0 ∉ s) (hreached : tok.Reached (s ++ 0 :: junk) pos)
    (hinside : ∀ pos, tok.Reached (s ++ 0 :: junk) pos → pos ≤ s.length) :
    Whole tok (s.drop pos) := by
  induction hn : s.length - pos using Nat.strong_induction_on generalizing pos with
  | _ n ih =>
    cases hrest : s.drop pos with
    | nil => exact .done
    | cons c q =>
      have hlength := congrArg List.length hrest
      rw [List.length_drop, List.length_cons] at hlength
      have hnext : tok.Reached (s ++ 0 :: junk) (pos + tok.advance (c :: q)) :=
        hreached.tail ((moves_iff hs hrest).2 rfl)
      have hstop := hinside _ hnext
      have hneed := le_advance tok c q
      have hpos := needCp_pos c
      have hwhole := ih (s.length - (pos + tok.advance (c :: q))) (by omega) hnext rfl
      rw [← List.drop_drop, hrest] at hwhole
      refine .pass ?_ hwhole
      rw [List.length_cons]
      omega

theorem cursorInText_cases (hs : 0 ∉ s) (junk : List UInt8) :
    tok.CursorInText (s ++ 0 :: junk) s.length ↔ Whole tok s := by
  constructor
  · intro h
    exact whole_of_inside hs .refl h.inside
  · intro h
    have hwhole : Whole tok (s.drop 0) := h
    obtain ⟨hstop, hinside⟩ := hwhole.reaches hs (Nat.zero_le _)
    constructor
    case advances => exact fun pos pos' _ hmove => hmove.lt
    case inside => exact hinside
    case arrives => exact hstop
    case ends => rw [List.drop_left]; rfl

end Text

/-- The cursor stays in a text exactly when the text is whole. -/
theorem cursorInText_iff (tok : VgTokenizer) (junk : Nat → UInt8) (text : CString) :
    tok.CursorInText (tok.normBlock junk text.val) (tok.spmNormalize text.val).length ↔
      Whole tok (tok.spmNormalize text.val) :=
  cursorInText_cases (zero_notMem_spmNormalize text.property) _

/-- A text that ends after the first byte of a character. -/
def cutText : CString := ⟨[0xC3], by decide⟩

theorem cut_not_whole : ¬ Whole overlapTokenizer (overlapTokenizer.spmNormalize cutText.val) := by
  intro hwhole
  have hnorm : overlapTokenizer.spmNormalize cutText.val = [0xE2, 0x96, 0x81, 0xC3] := by
    decide +kernel
  have hadvance : overlapTokenizer.advance [0xE2, 0x96, 0x81, 0xC3] = 3 := by decide +kernel
  rw [hnorm] at hwhole
  cases hwhole with
  | pass _ hrest =>
    rw [hadvance] at hrest
    cases hrest with
    | pass hroom _ => exact absurd hroom (by decide)

/-- The cursor moves over two bytes where one is left. -/
theorem cut_leaves_text : ¬ ∀ (tok : VgTokenizer) (junk : Nat → UInt8) (text : CString),
    tok.CursorInText (tok.normBlock junk text.val) (tok.spmNormalize text.val).length := by
  intro hclaim
  exact cut_not_whole ((cursorInText_cases (zero_notMem_spmNormalize cutText.property) _).1
    (hclaim overlapTokenizer (fun _ => 97) cutText))

end VgTokenizer

end VgEngine.Tokenizer
