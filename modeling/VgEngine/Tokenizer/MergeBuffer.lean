import VgEngine.Lib.MergeRounds
import VgEngine.Tokenizer.ByteLevel

/-! The merge loop of byte-level encoding and merging in rounds: as long as no piece outgrows the
buffer, the loop ends with pieces that cannot be merged further, and for an ordered table of rules
these are the pieces of merging in rounds. -/
namespace VgEngine.Tokenizer
open Bytes Lib Model RankedMerge

namespace VgTokenizer

variable {tok : VgTokenizer} {word : List UInt8}

/-- Each rule that uses a symbol produced by another rule ranks after the rule producing it. -/
def MergesOrdered (tok : VgTokenizer) : Prop :=
  ∀ i j a b c d, tok.mergeRule i = some (a, b) → tok.mergeRule j = some (c, d) → i ≠ j →
    c = a ++ b ∨ d = a ++ b → i < j

theorem MergesOrdered.findMerge (h : tok.MergesOrdered) : Ordered tok.findMerge where
  inj a b c d r hab hcd := by
    have hrule := mergeRule_of_findMerge hab
    rw [mergeRule_of_findMerge hcd] at hrule
    obtain ⟨rfl, rfl⟩ := Prod.mk.inj (Option.some.inj hrule)
    exact ⟨rfl, rfl⟩
  later a b r x s ha hb hr hs := by
    have hrule := mergeRule_of_findMerge hr
    rcases hs with hs | hs
    · have hnext := mergeRule_of_findMerge hs
      refine h r s a b _ _ hrule hnext ?_ (Or.inr rfl)
      rintro rfl
      rw [hrule] at hnext
      have hsame := (Prod.mk.inj (Option.some.inj hnext)).2
      exact ha (List.self_eq_append_left.1 hsame)
    · have hnext := mergeRule_of_findMerge hs
      refine h r s a b _ _ hrule hnext ?_ (Or.inl rfl)
      rintro rfl
      rw [hrule] at hnext
      have hsame := (Prod.mk.inj (Option.some.inj hnext)).1
      exact hb (List.self_eq_append_right.1 hsame)

/-- The loop ends, with pieces that make up the word and of which no two can be merged; for an
ordered table they are those of merging in rounds. -/
def WellMerged (tok : VgTokenizer) (word : List UInt8) : Prop :=
  let w := word.map encodeByteFwd
  ∃ out, tok.bpeWordApply w.length w = some out ∧ out.flatten = w.flatten ∧
    Irreducible tok.findMerge out ∧ (tok.MergesOrdered → out = rounds tok.findMerge w)

theorem wordPieces_rounds (h : tok.MergesOrdered) (word : List UInt8) :
    tok.wordPieces word = rounds tok.findMerge (word.map encodeByteFwd) := by
  apply merged_eq_rounds h.findMerge
  intro p hp
  obtain ⟨b, -, rfl⟩ := List.mem_map.1 hp
  exact List.length_pos_iff.1 (encodeByteFwd_pos b)

theorem wellMerged_of_fits (hfits : tok.WordFits word) : tok.WellMerged word := by
  rcases wordApply_cases tok word with ⟨-, hsome⟩ | ⟨hover, -⟩
  · refine ⟨tok.wordPieces word, hsome, ?_, ?_, ?_⟩
    · exact merged_flatten _
    · exact (merged_spec _).2
    · exact fun hordered => wordPieces_rounds hordered word
  · exact absurd hfits hover

theorem not_wellMerged (hover : ¬ tok.WordFits word) : ¬ tok.WellMerged word := by
  rintro ⟨out, hout, -⟩
  rcases wordApply_cases tok word with ⟨hfits, -⟩ | ⟨-, hnone⟩
  · exact hover hfits
  · rw [hnone] at hout
    cases hout

/-- A word is merged well exactly when its pieces fit into the buffer. -/
theorem wellMerged_iff (tok : VgTokenizer) (word : List UInt8) :
    tok.WellMerged word ↔ tok.WordFits word := by
  constructor
  · intro hwell
    by_contra hover
    exact not_wellMerged hover hwell
  · exact wellMerged_of_fits

section Doubling

def letters (n : Nat) : CString :=
  ⟨List.replicate n 97, fun h => absurd (List.eq_of_mem_replicate h) (by decide)⟩

/-- Ten rules, each of which doubles what the one before makes. -/
def doublingRules : List (CString × CString) :=
  (List.range 10).map fun k => (letters (2 ^ k), letters (2 ^ k))

variable (h : tok.merges = doublingRules)
include h

theorem doubling_mergeRule (i : Nat) : tok.mergeRule i =
    if i < 10 then some (List.replicate (2 ^ i) 97, List.replicate (2 ^ i) 97) else none := by
  unfold mergeRule doublingRules at *
  rw [h, List.getElem?_map]
  split_ifs with hi
  · rw [List.getElem?_range hi]
    rfl
  · rw [List.getElem?_eq_none (by simpa using hi)]
    rfl

theorem doubling_findMerge {k : Nat} (hk : k < 10) :
    tok.findMerge (List.replicate (2 ^ k) 97) (List.replicate (2 ^ k) 97) = some k := by
  rw [findMerge_eq, List.find?_range_eq_some]
  have hlength : tok.merges.length = 10 := by
    rw [h]
    rfl
  refine ⟨?_, ?_, ?_⟩
  · rw [doubling_mergeRule h, if_pos hk]
    exact BEq.rfl
  · rw [hlength]
    exact List.mem_range.2 hk
  · intro j hj
    rw [doubling_mergeRule h, if_pos (hj.trans hk)]
    have hne : 2 ^ j ≠ 2 ^ k := fun heq => hj.ne (Nat.pow_right_injective (Nat.le_refl 2) heq)
    simp [List.replicate_inj, hne]

theorem doubling_ordered : tok.MergesOrdered := by
  intro i j a b c d hi hj hne hmade
  rw [doubling_mergeRule h] at hi hj
  split_ifs at hi hj with hi10 hj10
  obtain ⟨rfl, rfl⟩ := Prod.mk.inj (Option.some.inj hi)
  obtain ⟨rfl, rfl⟩ := Prod.mk.inj (Option.some.inj hj)
  have hpow : 2 ^ j = 2 ^ (i + 1) := by
    rw [or_self, ← List.replicate_add] at hmade
    have hlength := congrArg List.length hmade
    rw [List.length_replicate, List.length_replicate] at hlength
    rw [hlength, Nat.pow_succ]
    omega
  have hij : j = i + 1 := Nat.pow_right_injective (Nat.le_refl 2) hpow
  omega

/-- The pieces double until there is one of all letters. -/
theorem doubling_rounds {n k fuel : Nat} (hnk : n + k = 10) (hfuel : n ≤ fuel) :
    roundLoop tok.findMerge fuel (List.replicate (2 ^ n) (List.replicate (2 ^ k) 97)) =
      [List.replicate 1024 97] := by
  induction n generalizing k fuel with
  | zero =>
    obtain rfl : k = 10 := by omega
    exact roundLoop_singleton fuel _
  | succ n ih =>
    obtain ⟨fuel, rfl⟩ : ∃ m, fuel = m + 1 := ⟨fuel - 1, by omega⟩
    rw [Nat.pow_succ, Nat.mul_comm, roundLoop_replicate (Nat.two_pow_pos n)
      (doubling_findMerge h (by omega)), ← List.replicate_add, ← Nat.two_mul, Nat.mul_comm,
      ← Nat.pow_succ]
    exact ih (by omega) (by omega)

/-- A word of 1024 letters outgrows the buffer. -/
theorem doubling_not_wordFits : ¬ tok.WordFits (List.replicate 1024 97) := by
  have hsymbols : (List.replicate 1024 97).map encodeByteFwd =
      List.replicate (2 ^ 10) (List.replicate (2 ^ 0) 97) := by
    rw [List.map_replicate]
    rfl
  have hpieces : tok.wordPieces (List.replicate 1024 97) = [List.replicate 1024 97] := by
    rw [wordPieces_rounds (doubling_ordered h), hsymbols, rounds]
    apply doubling_rounds h rfl
    rw [List.length_replicate]
    decide
  intro hfits
  have hlength := hfits (List.replicate 1024 97) (by rw [hpieces]; exact List.mem_singleton_self _)
  rw [List.length_replicate] at hlength
  exact absurd hlength (by decide)

end Doubling

def doublingTokenizer : VgTokenizer where
  vocab := [.ofBytes (encodeByteFwd 32)]
  merges := doublingRules
  bosId := -1
  eosId := -1
  addBos := false
  gpt2ByteMap := true
  addDummyPrefix := true
  removeExtraWs := true
  added := []
  added_long := by simp

/-- The tenth rule joins 512 letters with 512 letters. -/
theorem doubling_not_wellMerged : ¬ ∀ (tok : VgTokenizer) (word : List UInt8),
    tok.MergesOrdered → tok.WellMerged word := by
  intro hclaim
  have hmerges : doublingTokenizer.merges = doublingRules := rfl
  exact not_wellMerged (doubling_not_wordFits hmerges)
    (hclaim doublingTokenizer (List.replicate 1024 97) (doubling_ordered hmerges))

end VgTokenizer

end VgEngine.Tokenizer
