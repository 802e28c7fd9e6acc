import VgEngine.Lib.Utf8
import VgEngine.Tokenizer.Emits

/-! The greedy match of the SentencePiece branch: the longest vocabulary entry at each place. -/
namespace VgEngine.Tokenizer
open Bytes Lib Utf8

theorem needCp_eq (lead : UInt8) : needCp lead = announced lead := by
  unfold needCp announced
  simp only [UInt8.le_iff_toNat_le]
  rfl

theorem needCp_pos (lead : UInt8) : 0 < needCp lead := by
  unfold needCp
  split_ifs <;> decide

namespace VgTokenizer

variable {tok : VgTokenizer} {s : List UInt8} {need n id len : Nat}

/-- What the scan over the lengths `need, …, need + n - 1` has found. -/
def LongestOf (tok : VgTokenizer) (s : List UInt8) (need n : Nat) : Option (Nat × Nat) → Prop
  | none => ∀ len, need ≤ len → len < need + n → ¬ tok.Has (s.take len)
  | some (id, len) => need ≤ len ∧ len < need + n ∧ tok.findTokenN (s.take len) = some id ∧
    ∀ len', len < len' → len' < need + n → ¬ tok.Has (s.take len')

theorem LongestOf.step {best : Option (Nat × Nat)} (h : LongestOf tok s need n best) :
    LongestOf tok s need (n + 1) (tok.longerMatch s best (need + n)) := by
  unfold longerMatch
  cases hfind : tok.findTokenN (s.take (need + n)) with
  | some id =>
    refine ⟨by omega, by omega, hfind, fun len' hlt hlt' => ?_⟩
    omega
  | none =>
    have hlast := findTokenN_eq_none.1 hfind
    rcases best with _ | ⟨id, len⟩
    · intro len hle hlt
      rcases Nat.lt_or_eq_of_le (Nat.le_of_lt_succ hlt) with hlt | rfl
      · exact h len hle hlt
      · exact hlast
    · obtain ⟨hle, hlt, hid, hlonger⟩ := h
      refine ⟨hle, by omega, hid, fun len' hlen' hlt' => ?_⟩
      rcases Nat.lt_or_eq_of_le (Nat.le_of_lt_succ hlt') with hlt' | rfl
      · exact hlonger len' hlen' hlt'
      · exact hlast

theorem longestMatch_spec (tok : VgTokenizer) (s : List UInt8) (need : Nat) :
    LongestOf tok s need (min (s.length + 1) 512 - need) (tok.longestMatch s need) := by
  unfold longestMatch
  generalize min (s.length + 1) 512 - need = n
  induction n with
  | zero =>
    intro len hle hlt
    omega
  | succ n ih =>
    rw [List.range'_concat, List.foldl_append, List.foldl_cons, List.foldl_nil, Nat.one_mul]
    exact ih.step

/-- A match is an entry of the vocabulary at the head of the text, from `need` bytes on and below
512, and no entry there is longer. -/
structure IsMatch (tok : VgTokenizer) (s : List UInt8) (need id len : Nat) : Prop where
  need_le : need ≤ len
  le_length : len ≤ s.length
  lt : len < 512
  find : tok.findTokenN (s.take len) = some id
  longest : ∀ len', len < len' → len' ≤ s.length → len' < 512 → ¬ tok.Has (s.take len')

theorem IsMatch.of_longestMatch (h : tok.longestMatch s need = some (id, len)) :
    IsMatch tok s need id len := by
  have hspec := longestMatch_spec tok s need
  rw [h] at hspec
  obtain ⟨hle, hlt, hfind, hlonger⟩ := hspec
  refine ⟨hle, by omega, by omega, hfind, fun len' hlen hs hroom => hlonger len' hlen (by omega)⟩

theorem not_has_of_longestMatch (h : tok.longestMatch s need = none) :
    ∀ len, need ≤ len → len ≤ s.length → len < 512 → ¬ tok.Has (s.take len) := by
  have hspec := longestMatch_spec tok s need
  rw [h] at hspec
  exact fun len hle hs hroom => hspec len hle (by omega)

theorem IsMatch.longestMatch_eq (h : IsMatch tok s need id len) :
    tok.longestMatch s need = some (id, len) := by
  cases hmatch : tok.longestMatch s need with
  | none =>
    exact absurd (findTokenN_isSome.1 (by rw [h.find]; rfl))
      (not_has_of_longestMatch hmatch len h.need_le h.le_length h.lt)
  | some found =>
    have hfound : IsMatch tok s need found.1 found.2 := .of_longestMatch hmatch
    have hlen : found.2 = len := by
      rcases Nat.lt_trichotomy found.2 len with hlt | heq | hgt
      · exact absurd (findTokenN_isSome.1 (by rw [h.find]; rfl))
          (hfound.longest len hlt h.le_length h.lt)
      · exact heq
      · exact absurd (findTokenN_isSome.1 (by rw [hfound.find]; rfl))
          (h.longest found.2 hgt hfound.le_length hfound.lt)
    have hid := hfound.find
    rw [hlen, h.find] at hid
    rw [Option.some.inj hid, ← hlen]

/-- The ids of the greedy match, with the pieces they stand for; where nothing matches, a character
is passed over for the id 0. -/
inductive Greedy (tok : VgTokenizer) : List UInt8 → List (Option Nat × List UInt8) → Prop
  | done : Greedy tok [] []
  | hit {c : UInt8} {q : List UInt8} {id len : Nat} {pieces : List (Option Nat × List UInt8)}
    (hmatch : tok.longestMatch (c :: q) (needCp c) = some (id, len))
    (hrest : Greedy tok ((c :: q).drop len) pieces) :
    Greedy tok (c :: q) ((some id, (c :: q).take len) :: pieces)
  | miss {c : UInt8} {q : List UInt8} {pieces : List (Option Nat × List UInt8)}
    (hmatch : tok.longestMatch (c :: q) (needCp c) = none)
    (hroom : needCp c ≤ (c :: q).length)
    (hrest : Greedy tok ((c :: q).drop (needCp c)) pieces) :
    Greedy tok (c :: q) ((none, (c :: q).take (needCp c)) :: pieces)

/-- The ids that are emitted for pieces. -/
def greedyIds (pieces : List (Option Nat × List UInt8)) : List Int :=
  pieces.map fun p => ((p.1.getD 0 : Nat) : Int)

/-- One pass of the loop over what is left of the block: the id and the length of the step. There is
none at the terminator, and none where the read leaves the block. -/
def spmPass (tok : VgTokenizer) (block : List UInt8) : Option (Int × Nat) :=
  match block with
  | [] => none
  | c :: _ =>
    if c = 0 then none
    else
      (strlenAt block).map fun s =>
        match tok.longestMatch s (needCp c) with
        | some (id, len) => (id, len)
        | none => (0, needCp c)

/-- The loop is its passes, up to the terminator. -/
theorem encodePieces_succ (tok : VgTokenizer) (fuel : Nat) (block : List UInt8) (b : IdBuffer) :
    tok.encodePieces (fuel + 1) block b =
      if block.head? = some 0 then some b
      else (tok.spmPass block).bind fun r => tok.encodePieces fuel (block.drop r.2) (b.put r.1) := by
  cases block with
  | nil => rfl
  | cons c q =>
    rw [encodePieces, spmPass, List.head?_cons]
    by_cases hc : c = 0
    · rw [if_pos hc, if_pos (by rw [hc])]
    · rw [if_neg hc, if_neg (by simpa using hc), if_neg hc]
      cases strlenAt (c :: q) with
      | none => rfl
      | some s =>
        rw [Option.map_some, Option.bind_some]
        dsimp only
        cases tok.longestMatch s (needCp c) <;> rfl

theorem strlenAt_terminated (hs : 0 ∉ s) (junk : List UInt8) :
    strlenAt (s ++ 0 :: junk) = some s := by
  have hcstr : cstr (s ++ 0 :: junk) = s := by
    unfold cstr
    rw [List.takeWhile_append_of_pos]
    · simp
    · rintro b hb
      have hne : b ≠ 0 := fun h0 => hs (h0 ▸ hb)
      simpa using hne
  unfold strlenAt
  rw [if_pos (by simp), hcstr]

theorem spmPass_cons {c : UInt8} {q : List UInt8} (hs : 0 ∉ c :: q) (junk : List UInt8) :
    tok.spmPass (c :: q ++ 0 :: junk) = some (match tok.longestMatch (c :: q) (needCp c) with
      | some (id, len) => ((id : Int), len)
      | none => (0, needCp c)) := by
  have hc : c ≠ 0 := fun h0 => hs (h0 ▸ List.mem_cons_self)
  have hstrlen := strlenAt_terminated hs junk
  rw [List.cons_append] at hstrlen ⊢
  unfold spmPass
  dsimp only
  rw [if_neg hc, hstrlen, Option.map_some]

/-- On a terminated text, the loop emits the ids of the greedy match and reads nothing behind. -/
theorem Greedy.emits {pieces : List (Option Nat × List UInt8)} (h : Greedy tok s pieces)
    (hs : 0 ∉ s) (junk : List UInt8) {fuel : Nat} (hfuel : s.length < fuel) :
    Emits (tok.encodePieces fuel (s ++ 0 :: junk)) (greedyIds pieces) := by
  have hhead {c : UInt8} {q : List UInt8} (hs : 0 ∉ c :: q) :
      (c :: q ++ 0 :: junk).head? ≠ some 0 :=
    fun h0 => hs (Option.some.inj h0 ▸ List.mem_cons_self)
  induction h generalizing fuel with
  | done =>
    obtain ⟨fuel, rfl⟩ : ∃ k, fuel = k + 1 := ⟨fuel - 1, by omega⟩
    intro b
    rfl
  | @hit c q id len pieces hmatch hrest ih =>
    obtain ⟨fuel, rfl⟩ : ∃ k, fuel = k + 1 := ⟨fuel - 1, by omega⟩
    have hfound : IsMatch tok (c :: q) (needCp c) id len := .of_longestMatch hmatch
    have hpos := needCp_pos c
    have hle := hfound.need_le
    intro b
    rw [encodePieces_succ, if_neg (hhead hs), spmPass_cons hs, hmatch, Option.bind_some]
    dsimp only
    rw [List.drop_append_of_le_length hfound.le_length, ih]
    · rfl
    · exact fun h0 => hs (List.mem_of_mem_drop h0)
    · rw [List.length_cons] at hfuel
      rw [List.length_drop, List.length_cons]
      omega
  | @miss c q pieces hmatch hroom hrest ih =>
    obtain ⟨fuel, rfl⟩ : ∃ k, fuel = k + 1 := ⟨fuel - 1, by omega⟩
    have hpos := needCp_pos c
    intro b
    rw [encodePieces_succ, if_neg (hhead hs), spmPass_cons hs, hmatch, Option.bind_some]
    dsimp only
    rw [List.drop_append_of_le_length hroom, ih]
    · rfl
    · exact fun h0 => hs (List.mem_of_mem_drop h0)
    · rw [List.length_cons] at hfuel
      rw [List.length_drop, List.length_cons]
      omega

/-- On the end of a text in UTF-8 the greedy match comes to its end. -/
theorem exists_greedy {cs : List Char} (h : s <:+ utf8 cs) : ∃ pieces, Greedy tok s pieces := by
  induction hn : s.length using Nat.strong_induction_on generalizing s with
  | _ n ih =>
    subst hn
    cases s with
    | nil => exact ⟨[], .done⟩
    | cons c q =>
      have hroom : needCp c ≤ (c :: q).length := by
        rw [needCp_eq]
        exact announced_le h rfl
      have hpos := needCp_pos c
      have hnext (k : Nat) (hk : 0 < k) (hle : k ≤ (c :: q).length) :
          ∃ pieces, Greedy tok ((c :: q).drop k) pieces := by
        refine ih _ ?_ ((List.drop_suffix k _).trans h) rfl
        rw [List.length_drop]
        omega
      cases hmatch : tok.longestMatch (c :: q) (needCp c) with
      | none =>
        obtain ⟨pieces, hpieces⟩ := hnext _ hpos hroom
        exact ⟨_, .miss hmatch hroom hpieces⟩
      | some found =>
        have hfound : IsMatch tok (c :: q) (needCp c) found.1 found.2 := .of_longestMatch hmatch
        obtain ⟨pieces, hpieces⟩ := hnext found.2 (by have := hfound.need_le; omega) hfound.le_length
        exact ⟨_, .hit hmatch hpieces⟩

end VgTokenizer

end VgEngine.Tokenizer
