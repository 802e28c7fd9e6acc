import Mathlib.Data.List.Basic
import Mathlib.Logic.Relation

/-! Ranked merging of adjacent pieces: as long as a pair has a rank, the pair of the lowest rank
is joined, the leftmost one among equals. -/
namespace VgEngine.Lib.RankedMerge

variable {α : Type*} (rank : List α → List α → Option Nat)

/-- The rank of the pair at a position. -/
def pairRank (pieces : List (List α)) (i : Nat) : Option Nat :=
  match pieces[i]?, pieces[i + 1]? with
  | some a, some b => rank a b
  | _, _ => none

/-- The best pair so far, and the pair at `i`. -/
def better (best : Option (Nat × Nat)) (r : Option Nat) (i : Nat) : Option (Nat × Nat) :=
  match r, best with
  | none, best => best
  | some r, none => some (r, i)
  | some r, some best => if r < best.1 then some (r, i) else some best

/-- The scan for the best pair, whose rank and position it keeps. -/
def bestFrom : Nat → Option (Nat × Nat) → List (List α) → Option (Nat × Nat)
  | i, best, a :: b :: rest => bestFrom (i + 1) (better best (rank a b) i) (b :: rest)
  | _, best, _ => best

def bestPair (pieces : List (List α)) : Option (Nat × Nat) := bestFrom rank 0 none pieces

def mergeAt : Nat → List (List α) → List (List α)
  | 0, a :: b :: rest => (a ++ b) :: rest
  | i + 1, a :: rest => a :: mergeAt i rest
  | _, pieces => pieces

def mergeLoop : Nat → List (List α) → List (List α)
  | 0, pieces => pieces
  | fuel + 1, pieces =>
    match bestPair rank pieces with
    | none => pieces
    | some best => mergeLoop fuel (mergeAt best.2 pieces)

/-- A join makes one piece of two, so the number of pieces bounds the joins. -/
def merged (pieces : List (List α)) : List (List α) := mergeLoop rank pieces.length pieces

/-- The pair to join: of the lowest rank, before which all ranks are higher. -/
structure IsBest (pieces : List (List α)) (r i : Nat) : Prop where
  ranked : pairRank rank pieces i = some r
  least : ∀ j r', pairRank rank pieces j = some r' → r ≤ r'
  leftmost : ∀ j < i, ∀ r', pairRank rank pieces j = some r' → r < r'

/-- One join, of the best pair. -/
def Joins (pieces joined : List (List α)) : Prop :=
  ∃ r i, IsBest rank pieces r i ∧ joined = mergeAt i pieces

/-- No pair has a rank. -/
def Irreducible (pieces : List (List α)) : Prop := ∀ i, pairRank rank pieces i = none

variable {rank} {pieces : List (List α)} {best : Option (Nat × Nat)} {i n r : Nat}

/-- What a scan knows of the ranks before position `n`. -/
def BestBefore (f : Nat → Option Nat) (n : Nat) : Option (Nat × Nat) → Prop
  | none => ∀ j < n, f j = none
  | some (r, i) => i < n ∧ f i = some r ∧ (∀ j < n, ∀ r', f j = some r' → r ≤ r') ∧
    ∀ j < i, ∀ r', f j = some r' → r < r'

theorem BestBefore.step {f : Nat → Option Nat} (h : BestBefore f n best) :
    BestBefore f (n + 1) (better best (f n) n) := by
  rcases hr : f n with _ | r <;> rcases best with _ | ⟨r', i⟩
  · intro j hj
    rcases Nat.lt_succ_iff_lt_or_eq.1 hj with hj | rfl
    · exact h j hj
    · exact hr
  · obtain ⟨hi, hranked, hleast, hleftmost⟩ := h
    refine ⟨by omega, hranked, fun j hj s hs => ?_, hleftmost⟩
    rcases Nat.lt_succ_iff_lt_or_eq.1 hj with hj | rfl
    · exact hleast j hj s hs
    · simp [hr] at hs
  · have hfirst : ∀ j < n, ∀ s, f j = some s → False := by
      intro j hj s hs
      simp [h j hj] at hs
    refine ⟨by omega, hr, fun j hj s hs => ?_, fun j hj s hs => (hfirst j hj s hs).elim⟩
    rcases Nat.lt_succ_iff_lt_or_eq.1 hj with hj | rfl
    · exact (hfirst j hj s hs).elim
    · exact Nat.le_of_eq (Option.some.inj (hr.symm.trans hs))
  · obtain ⟨hi, hranked, hleast, hleftmost⟩ := h
    unfold better
    dsimp only
    split_ifs with hlt
    · refine ⟨by omega, hr, fun j hj s hs => ?_, fun j hj s hs => ?_⟩
      · rcases Nat.lt_succ_iff_lt_or_eq.1 hj with hj | rfl
        · exact Nat.le_of_lt (Nat.lt_of_lt_of_le hlt (hleast j hj s hs))
        · exact Nat.le_of_eq (Option.some.inj (hr.symm.trans hs))
      · exact Nat.lt_of_lt_of_le hlt (hleast j hj s hs)
    · refine ⟨by omega, hranked, fun j hj s hs => ?_, hleftmost⟩
      rcases Nat.lt_succ_iff_lt_or_eq.1 hj with hj | rfl
      · exact hleast j hj s hs
      · have := Option.some.inj (hr.symm.trans hs)
        omega

theorem pairRank_eq_none (h : pieces.length ≤ i + 1) : pairRank rank pieces i = none := by
  unfold pairRank
  rw [List.getElem?_eq_none h]
  cases pieces[i]? <;> rfl

theorem pairRank_drop (j : Nat) :
    pairRank rank (pieces.drop i) j = pairRank rank pieces (i + j) := by
  unfold pairRank
  rw [List.getElem?_drop, List.getElem?_drop, Nat.add_assoc]

theorem bestFrom_best (rest : List (List α)) (hrest : rest = pieces.drop i)
    (h : BestBefore (pairRank rank pieces) i best) :
    BestBefore (pairRank rank pieces) (max i (pieces.length - 1)) (bestFrom rank i best rest) := by
  induction rest generalizing i best with
  | nil =>
    have hlength : pieces.length ≤ i := List.drop_eq_nil_iff.1 hrest.symm
    rw [Nat.max_eq_left (by omega)]
    exact h
  | cons a rest ih =>
    have hlength := congrArg List.length hrest
    rw [List.length_cons, List.length_drop] at hlength
    cases rest with
    | nil =>
      rw [List.length_nil] at hlength
      rw [Nat.max_eq_left (by omega)]
      exact h
    | cons b rest =>
      rw [List.length_cons] at hlength
      have hpair : pairRank rank pieces i = rank a b := by
        rw [← Nat.add_zero i, ← pairRank_drop, ← hrest]
        rfl
      have hnext : b :: rest = pieces.drop (i + 1) := by
        rw [← List.tail_drop, ← hrest]
        rfl
      have hbest := ih hnext (hpair ▸ h.step)
      rw [Nat.max_eq_right (by omega)] at hbest ⊢
      exact hbest

variable (rank) in
theorem bestPair_best (pieces : List (List α)) :
    BestBefore (pairRank rank pieces) (pieces.length - 1) (bestPair rank pieces) := by
  have hnone : BestBefore (pairRank rank pieces) 0 none := by simp [BestBefore]
  have h := bestFrom_best pieces rfl hnone
  rwa [Nat.max_eq_right (Nat.zero_le _)] at h

theorem irreducible_of_bestPair (h : bestPair rank pieces = none) : Irreducible rank pieces := by
  intro i
  have hbest := bestPair_best rank pieces
  rw [h] at hbest
  by_cases hi : i < pieces.length - 1
  · exact hbest i hi
  · exact pairRank_eq_none (by omega)

theorem isBest_of_bestPair (h : bestPair rank pieces = some (r, i)) : IsBest rank pieces r i := by
  have hbest := bestPair_best rank pieces
  rw [h] at hbest
  obtain ⟨-, hranked, hleast, hleftmost⟩ := hbest
  refine ⟨hranked, fun j r' hr' => hleast j ?_ r' hr', hleftmost⟩
  by_contra hj
  rw [pairRank_eq_none (by omega)] at hr'
  cases hr'

/-- A ranked pair stands between what is before and what is behind it. -/
theorem exists_of_pairRank (h : pairRank rank pieces i = some r) : ∃ before a b behind,
    pieces = before ++ a :: b :: behind ∧ before.length = i ∧ rank a b = some r := by
  unfold pairRank at h
  cases ha : pieces[i]? with
  | none =>
    rw [ha] at h
    cases h
  | some a =>
    cases hb : pieces[i + 1]? with
    | none =>
      rw [ha, hb] at h
      cases h
    | some b =>
      rw [ha, hb] at h
      obtain ⟨hi, rfl⟩ := List.getElem?_eq_some_iff.1 ha
      obtain ⟨hi', rfl⟩ := List.getElem?_eq_some_iff.1 hb
      refine ⟨pieces.take i, pieces[i], pieces[i + 1], pieces.drop (i + 2), ?_, ?_, h⟩
      · rw [← List.drop_eq_getElem_cons hi', ← List.drop_eq_getElem_cons hi, List.take_append_drop]
      · rw [List.length_take]
        omega

theorem mergeAt_append {before behind : List (List α)} {a b : List α} :
    mergeAt before.length (before ++ a :: b :: behind) = before ++ (a ++ b) :: behind := by
  induction before with
  | nil => rfl
  | cons c before ih => simp [mergeAt, ih]

theorem Joins.exists {joined : List (List α)} (h : Joins rank pieces joined) :
    ∃ before a b behind r, pieces = before ++ a :: b :: behind ∧ rank a b = some r ∧
      joined = before ++ (a ++ b) :: behind := by
  obtain ⟨r, i, hbest, rfl⟩ := h
  obtain ⟨before, a, b, behind, rfl, rfl, hr⟩ := exists_of_pairRank hbest.ranked
  exact ⟨before, a, b, behind, r, rfl, hr, mergeAt_append⟩

theorem Joins.flatten {joined : List (List α)} (h : Joins rank pieces joined) :
    joined.flatten = pieces.flatten := by
  obtain ⟨before, a, b, behind, r, rfl, -, rfl⟩ := h.exists
  simp

theorem Joins.length {joined : List (List α)} (h : Joins rank pieces joined) :
    joined.length + 1 = pieces.length := by
  obtain ⟨before, a, b, behind, r, rfl, -, rfl⟩ := h.exists
  simp
  omega

/-- A property of the pieces that joins keep. -/
theorem Joins.forall {P : List α → Prop} {joined : List (List α)} (h : Joins rank pieces joined)
    (hjoin : ∀ a b r, rank a b = some r → P a → P b → P (a ++ b)) (hP : ∀ p ∈ pieces, P p) :
    ∀ p ∈ joined, P p := by
  obtain ⟨before, a, b, behind, r, rfl, hr, rfl⟩ := h.exists
  intro p hp
  rcases List.mem_append.1 hp with hp | hp
  · exact hP p (List.mem_append_left _ hp)
  · rcases List.mem_cons.1 hp with rfl | hp
    · exact hjoin a b r hr (hP a (by simp)) (hP b (by simp))
    · exact hP p (by simp [hp])

theorem mergeLoop_spec (fuel : Nat) (hfuel : pieces.length ≤ fuel) :
    Relation.ReflTransGen (Joins rank) pieces (mergeLoop rank fuel pieces) ∧
      Irreducible rank (mergeLoop rank fuel pieces) := by
  induction fuel generalizing pieces with
  | zero =>
    refine ⟨.refl, fun i => pairRank_eq_none ?_⟩
    exact Nat.le_trans hfuel (Nat.zero_le _)
  | succ fuel ih =>
    unfold mergeLoop
    cases hbest : bestPair rank pieces with
    | none => exact ⟨.refl, irreducible_of_bestPair hbest⟩
    | some best =>
      have hjoins : Joins rank pieces (mergeAt best.2 pieces) :=
        ⟨best.1, best.2, isBest_of_bestPair hbest, rfl⟩
      have hlength := hjoins.length
      obtain ⟨hsteps, hdone⟩ := ih (show (mergeAt best.2 pieces).length ≤ fuel by omega)
      exact ⟨.head hjoins hsteps, hdone⟩

/-- Best pairs are joined until none has a rank. -/
theorem merged_spec (pieces : List (List α)) :
    Relation.ReflTransGen (Joins rank) pieces (merged rank pieces) ∧
      Irreducible rank (merged rank pieces) :=
  mergeLoop_spec pieces.length (Nat.le_refl _)

theorem steps_flatten {joined : List (List α)}
    (h : Relation.ReflTransGen (Joins rank) pieces joined) : joined.flatten = pieces.flatten := by
  induction h with
  | refl => rfl
  | tail _ hjoins ih => rw [hjoins.flatten, ih]

/-- A property of the pieces that joins keep. -/
theorem steps_forall {P : List α → Prop} {joined : List (List α)}
    (h : Relation.ReflTransGen (Joins rank) pieces joined)
    (hjoin : ∀ a b r, rank a b = some r → P a → P b → P (a ++ b)) (hP : ∀ p ∈ pieces, P p) :
    ∀ p ∈ joined, P p := by
  induction h with
  | refl => exact hP
  | tail _ hjoins ih => exact hjoins.forall hjoin ih

theorem Joins.infix {joined : List (List α)} (h : Joins rank pieces joined) :
    ∀ p ∈ pieces, ∃ q ∈ joined, p <:+: q := by
  obtain ⟨before, a, b, behind, r, rfl, -, rfl⟩ := h.exists
  intro p hp
  rcases List.mem_append.1 hp with hp | hp
  · exact ⟨p, by simp [hp], List.infix_rfl⟩
  · rcases List.mem_cons.1 hp with rfl | hp
    · exact ⟨p ++ b, by simp, (List.prefix_append p b).isInfix⟩
    · rcases List.mem_cons.1 hp with rfl | hp
      · exact ⟨a ++ p, by simp, (List.suffix_append a p).isInfix⟩
      · exact ⟨p, by simp [hp], List.infix_rfl⟩

/-- Each piece is part of one of the result. -/
theorem steps_infix {joined : List (List α)}
    (h : Relation.ReflTransGen (Joins rank) pieces joined) :
    ∀ p ∈ pieces, ∃ q ∈ joined, p <:+: q := by
  induction h with
  | refl => exact fun p hp => ⟨p, hp, List.infix_rfl⟩
  | tail _ hjoins ih =>
    intro p hp
    obtain ⟨q, hq, hpq⟩ := ih p hp
    obtain ⟨q', hq', hqq'⟩ := hjoins.infix q hq
    exact ⟨q', hq', hpq.trans hqq'⟩

theorem merged_flatten (pieces : List (List α)) :
    (merged rank pieces).flatten = pieces.flatten :=
  steps_flatten (merged_spec pieces).1

theorem steps_length {joined : List (List α)}
    (h : Relation.ReflTransGen (Joins rank) pieces joined) : joined.length ≤ pieces.length := by
  induction h with
  | refl => exact Nat.le_refl _
  | tail _ hjoins ih =>
    have hlength := hjoins.length
    omega

theorem merged_length (pieces : List (List α)) : (merged rank pieces).length ≤ pieces.length :=
  steps_length (merged_spec pieces).1

theorem merged_forall {P : List α → Prop}
    (hjoin : ∀ a b r, rank a b = some r → P a → P b → P (a ++ b)) (hP : ∀ p ∈ pieces, P p) :
    ∀ p ∈ merged rank pieces, P p :=
  steps_forall (merged_spec pieces).1 hjoin hP

end VgEngine.Lib.RankedMerge
