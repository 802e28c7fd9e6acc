import VgEngine.Tokenizer.Encode

/-! What the hash lookups find: the first vocabulary entry with a text, and the lowest rule for a
pair. -/
namespace VgEngine.Tokenizer
open Lib

theorem le_growCap (passes n cap : Nat) : cap ≤ growCap passes n cap := by
  induction passes generalizing cap with
  | zero => exact Nat.le_refl cap
  | succ passes ih =>
    unfold growCap
    split_ifs
    · exact Nat.le_trans (by omega) (ih (cap * 2))
    · exact Nat.le_refl cap

theorem le_growCap_of_pow {passes n cap : Nat} (h : n * 2 ≤ cap * 2 ^ passes) :
    n * 2 ≤ growCap passes n cap := by
  induction passes generalizing cap with
  | zero => simpa [growCap] using h
  | succ passes ih =>
    unfold growCap
    split_ifs with hcap
    · apply ih
      rwa [Nat.mul_assoc, ← Nat.pow_succ']
    · omega

/-- An index is at most half full. -/
theorem lt_indexCap (n : Nat) : n < indexCap n := by
  have hpow : n < 2 ^ n := Nat.lt_two_pow_self
  have hhalf : n * 2 ≤ indexCap n := le_growCap_of_pow (by omega)
  have hmin : 16 ≤ indexCap n := le_growCap n n 16
  omega

/-- Capacities are powers of two, so that a mask takes a hash modulo the capacity. -/
theorem growCap_two_pow (passes n e : Nat) : ∃ k, growCap passes n (2 ^ e) = 2 ^ k := by
  induction passes generalizing e with
  | zero => exact ⟨e, rfl⟩
  | succ passes ih =>
    unfold growCap
    split_ifs
    · rw [← Nat.pow_succ]
      exact ih (e + 1)
    · exact ⟨e, rfl⟩

theorem and_mask (hash n : Nat) : hash &&& (indexCap n - 1) = hash % indexCap n := by
  obtain ⟨k, hk⟩ := growCap_two_pow n n 4
  have hcap : indexCap n = 2 ^ k := hk
  rw [hcap, Nat.and_two_pow_sub_one_eq_mod]

theorem ofRange_filter {n i : Nat} {home : Nat → Nat} {p : Nat → Bool}
    (hp : ∀ v, p v = true → home v = i) :
    ((ProbeTable.ofValues home (indexCap n) (List.range n)).probe i).filter p =
      (List.range n).filter p := by
  have hroom : (List.range n).length < indexCap n := by
    rw [List.length_range]
    exact lt_indexCap n
  apply (ProbeTable.holds_ofValues List.nodup_range hroom).filter
  intro v hv
  rw [hp v hv]

namespace VgTokenizer

variable {tok : VgTokenizer} {text a b : List UInt8} {i : Nat}

theorem findTokenN_eq (text : List UInt8) : tok.findTokenN text =
    (List.range tok.vocab.length).find? fun i => tok.tokenText i == some text := by
  unfold findTokenN vocabIx
  rw [← List.head?_filter, ofRange_filter, List.head?_filter]
  intro v hv
  rw [eq_of_beq hv]
  rfl

theorem tokenText_eq_some : tok.tokenText i = some text ↔
    ∃ s, tok.vocab[i]? = some s ∧ s.val = text := Option.map_eq_some_iff

theorem lt_of_tokenText (h : tok.tokenText i = some text) : i < tok.vocab.length := by
  obtain ⟨s, hs, -⟩ := tokenText_eq_some.1 h
  exact (List.getElem?_eq_some_iff.1 hs).1

theorem tokenText_of_findTokenN (h : tok.findTokenN text = some i) :
    tok.tokenText i = some text := by
  rw [findTokenN_eq] at h
  have hi := (List.find?_eq_some_iff_append.1 h).1
  exact eq_of_beq hi

/-- The vocabulary has an entry with this text. -/
def Has (tok : VgTokenizer) (text : List UInt8) : Prop := ∃ i, tok.tokenText i = some text

theorem findTokenN_isSome : (tok.findTokenN text).isSome ↔ tok.Has text := by
  rw [findTokenN_eq, List.find?_isSome]
  constructor
  · rintro ⟨i, -, hi⟩
    exact ⟨i, eq_of_beq hi⟩
  · rintro ⟨i, hi⟩
    exact ⟨i, List.mem_range.2 (lt_of_tokenText hi), by simp [hi]⟩

theorem Has.exists_find (h : tok.Has text) : ∃ i, tok.findTokenN text = some i :=
  Option.isSome_iff_exists.1 (findTokenN_isSome.2 h)

theorem findTokenN_eq_none : tok.findTokenN text = none ↔ ¬ tok.Has text := by
  rw [← findTokenN_isSome, Option.not_isSome_iff_eq_none]

theorem foldl_lowerRank (is : List Nat) (best : Option Nat) :
    is.foldl (tok.lowerRank a b) best =
      (is.filter fun i => tok.mergeRule i == some (a, b)).foldl lower best := by
  induction is generalizing best with
  | nil => rfl
  | cons i is ih =>
    rw [List.foldl_cons, ih, List.filter_cons]
    unfold lowerRank
    by_cases hrule : tok.mergeRule i = some (a, b)
    · simp [hrule]
    · simp [hrule]

theorem foldl_lower_of_lt {is : List Nat} {r : Nat} (h : ∀ i ∈ is, r < i) :
    is.foldl lower (some r) = some r := by
  induction is with
  | nil => rfl
  | cons i is ih =>
    have hi : ¬ i < r := Nat.lt_asymm (h i List.mem_cons_self)
    rw [List.foldl_cons, lower, if_neg hi]
    exact ih fun j hj => h j (List.mem_cons_of_mem i hj)

theorem foldl_lower {is : List Nat} (h : is.Pairwise (· < ·)) :
    is.foldl lower none = is.head? := by
  cases is with
  | nil => rfl
  | cons i is => exact foldl_lower_of_lt (List.pairwise_cons.1 h).1

/-- The rule found is the first, and so the lowest, for the pair. -/
theorem findMerge_eq (a b : List UInt8) : tok.findMerge a b =
    (List.range tok.merges.length).find? fun i => tok.mergeRule i == some (a, b) := by
  unfold findMerge mergeIx
  split_ifs with hempty
  · rw [hempty]
    rfl
  · rw [foldl_lowerRank, ofRange_filter, foldl_lower, List.head?_filter]
    · exact List.pairwise_lt_range.filter _
    · intro v hv
      rw [eq_of_beq hv, Option.map_some, Option.getD_some]

theorem mergeRule_of_findMerge (h : tok.findMerge a b = some i) :
    tok.mergeRule i = some (a, b) := by
  rw [findMerge_eq] at h
  have hi := (List.find?_eq_some_iff_append.1 h).1
  exact eq_of_beq hi

theorem mem_of_mergeRule (h : tok.mergeRule i = some (a, b)) :
    ∃ m ∈ tok.merges, m.1.val = a ∧ m.2.val = b := by
  unfold mergeRule at h
  obtain ⟨m, hm, heq⟩ := Option.map_eq_some_iff.1 h
  obtain ⟨hi, rfl⟩ := List.getElem?_eq_some_iff.1 hm
  exact ⟨_, List.getElem_mem hi, (Prod.mk.inj heq).1, (Prod.mk.inj heq).2⟩

/-- The outcome of a linear scan: the first index at which `f` is `x`, if there is one. -/
def IsFirst {α : Type*} (f : Nat → Option α) (x : α) : Option Nat → Prop
  | none => ∀ i, f i ≠ some x
  | some i => f i = some x ∧ ∀ j < i, f j ≠ some x

theorem isFirst_find? {α : Type*} [BEq α] [LawfulBEq α] {f : Nat → Option α} {x : α} {n : Nat}
    (hn : ∀ i, f i = some x → i < n) : IsFirst f x ((List.range n).find? fun i => f i == some x) := by
  cases hfind : (List.range n).find? fun i => f i == some x with
  | none =>
    intro i hi
    have hmiss := List.find?_eq_none.1 hfind i (List.mem_range.2 (hn i hi))
    exact hmiss (by simp [hi])
  | some i =>
    obtain ⟨hi, -, hbefore⟩ := List.find?_range_eq_some.1 hfind
    exact ⟨eq_of_beq hi, fun j hj => by simpa using hbefore j hj⟩

/-- The loop that probes from a slot comes to an empty one within a round of the table. -/
def ProbeEnds (t : ProbeTable Nat) (i : Nat) : Prop := ∃ n < t.cap, t.slot (i + n) = none

theorem ofRange_probeEnds (home : Nat → Nat) (n i : Nat) :
    ProbeEnds (ProbeTable.ofValues home (indexCap n) (List.range n)) i := by
  have hroom : (List.range n).length < indexCap n := by
    rw [List.length_range]
    exact lt_indexCap n
  have hcap : (ProbeTable.ofValues home (indexCap n) (List.range n)).cap = indexCap n :=
    ProbeTable.cap_ofValues List.nodup_range hroom
  refine ⟨_, ?_, (ProbeTable.ofValues_probe_ends List.nodup_range hroom i).2⟩
  rw [hcap]
  exact (ProbeTable.ofValues_probe_ends List.nodup_range hroom i).1

/-- The lookups find what linear scans of the vocabulary and of the rules find, and their loops
end, whatever the texts hash to. -/
theorem lookups_scan (tok : VgTokenizer) (text a b : List UInt8) :
    (IsFirst tok.tokenText text (tok.findTokenN text) ∧
      ProbeEnds tok.vocabIx (vgHashBytes text)) ∧
    IsFirst tok.mergeRule (a, b) (tok.findMerge a b) ∧
      ProbeEnds tok.mergeIx (mergeHash a b) := by
  refine ⟨⟨?_, ofRange_probeEnds _ _ _⟩, ?_, ofRange_probeEnds _ _ _⟩
  · rw [findTokenN_eq]
    exact isFirst_find? fun i hi => lt_of_tokenText hi
  · rw [findMerge_eq]
    apply isFirst_find?
    intro i hi
    unfold mergeRule at hi
    obtain ⟨m, hm, -⟩ := Option.map_eq_some_iff.1 hi
    exact (List.getElem?_eq_some_iff.1 hm).1

end VgTokenizer

end VgEngine.Tokenizer
