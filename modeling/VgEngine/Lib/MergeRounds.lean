import VgEngine.Lib.RankedMerge
import Mathlib.Data.List.Chain

/-! Ranked merging in rounds: the best pair is joined wherever it stands before the next one is
looked for. Where each rank is that of one pair, and what a join makes is only used at higher
ranks, this is ranked merging one join at a time. -/
namespace VgEngine.Lib.RankedMerge

section Rounds

variable {α : Type*} [DecidableEq α] (rank : List α → List α → Option Nat)

/-- A pair is joined wherever it stands, from left to right. -/
def joinAll (a b : List α) : List (List α) → List (List α)
  | x :: y :: rest =>
    if x = a ∧ y = b then (a ++ b) :: joinAll a b rest else x :: joinAll a b (y :: rest)
  | pieces => pieces

def roundLoop : Nat → List (List α) → List (List α)
  | 0, pieces => pieces
  | fuel + 1, pieces =>
    match bestPair rank pieces with
    | none => pieces
    | some best =>
      roundLoop fuel (joinAll (pieces.getD best.2 []) (pieces.getD (best.2 + 1) []) pieces)

/-- A round makes the pieces fewer, so their number bounds the rounds. -/
def rounds (pieces : List (List α)) : List (List α) := roundLoop rank pieces.length pieces

end Rounds

variable {α : Type*} (rank : List α → List α → Option Nat)

/-- A rank is that of one pair, and a pair with a joined piece ranks above the pair joined. -/
structure Ordered : Prop where
  inj : ∀ a b c d r, rank a b = some r → rank c d = some r → a = c ∧ b = d
  later : ∀ a b r x s, a ≠ [] → b ≠ [] → rank a b = some r →
    rank x (a ++ b) = some s ∨ rank (a ++ b) x = some s → r < s

def Above (r : Nat) (x y : List α) : Prop := ∀ s, rank x y = some s → r < s

def AtLeast (r : Nat) (x y : List α) : Prop := ∀ s, rank x y = some s → r ≤ s

variable {rank} {pieces before rest joined : List (List α)} {a b : List α} {i j n r : Nat}

section Unique

theorem IsBest.unique {r' i' : Nat} (h : IsBest rank pieces r i) (h' : IsBest rank pieces r' i') :
    r = r' ∧ i = i' := by
  have hr : r = r' := Nat.le_antisymm (h.least i' r' h'.ranked) (h'.least i r h.ranked)
  subst hr
  refine ⟨rfl, ?_⟩
  rcases Nat.lt_trichotomy i i' with hlt | heq | hgt
  · exact absurd (h'.leftmost i hlt r h.ranked) (Nat.lt_irrefl r)
  · exact heq
  · exact absurd (h.leftmost i' hgt r h'.ranked) (Nat.lt_irrefl r)

theorem joins_rightUnique : Relator.RightUnique (Joins rank) := by
  rintro pieces _ _ ⟨r, i, hbest, rfl⟩ ⟨r', i', hbest', rfl⟩
  rw [(hbest.unique hbest').2]

theorem Irreducible.not_joins (h : Irreducible rank pieces) : ¬ Joins rank pieces joined := by
  rintro ⟨r, i, hbest, -⟩
  have hranked := hbest.ranked
  rw [h i] at hranked
  cases hranked

/-- However pieces are joined until no pair has a rank, best pairs first, the result is that of
the loop. -/
theorem merged_unique (hsteps : Relation.ReflTransGen (Joins rank) pieces joined)
    (hdone : Irreducible rank joined) : merged rank pieces = joined := by
  have hsteps' : Relation.ReflTransGen (Joins rank) pieces (merged rank pieces) :=
    (merged_spec pieces).1
  have hdone' : Irreducible rank (merged rank pieces) := (merged_spec pieces).2
  have hend {p q : List (List α)} (hp : Irreducible rank p)
      (hpq : Relation.ReflTransGen (Joins rank) p q) : p = q := by
    rcases hpq.cases_head with heq | ⟨_, hjoins, -⟩
    · exact heq
    · exact absurd hjoins hp.not_joins
  rcases Relation.ReflTransGen.total_of_right_unique joins_rightUnique hsteps' hsteps with h | h
  · exact hend hdone' h
  · exact (hend hdone h).symm

end Unique

section Steps

theorem exists_of_chain {R : List α → List α → Prop} (h : pieces.IsChain R)
    (hr : pairRank rank pieces i = some r) : ∃ x y, R x y ∧ rank x y = some r := by
  obtain ⟨before, x, y, behind, rfl, -, hxy⟩ := exists_of_pairRank hr
  exact ⟨x, y, (List.isChain_append_cons_cons.1 h).2.1, hxy⟩

theorem pairRank_take (h : j + 1 < n) : pairRank rank (pieces.take n) j = pairRank rank pieces j := by
  unfold pairRank
  rw [List.getElem?_take_of_lt (Nat.lt_of_succ_lt h), List.getElem?_take_of_lt h]

/-- A pair of the lowest rank, with only higher ones before it. -/
theorem isBest_append (hbefore : (before ++ [a]).IsChain (Above rank r))
    (hrest : (a :: b :: rest).IsChain (AtLeast rank r)) (hr : rank a b = some r) :
    IsBest rank (before ++ a :: b :: rest) r before.length := by
  have hall : (before ++ a :: b :: rest).IsChain (AtLeast rank r) := by
    rw [List.isChain_append_cons_cons]
    rw [List.isChain_cons_cons] at hrest
    exact ⟨hbefore.imp fun _ _ h s hs => Nat.le_of_lt (h s hs), hrest.1, hrest.2⟩
  constructor
  case ranked => simp [pairRank, hr]
  case least =>
    intro j s hs
    obtain ⟨x, y, hxy, hrank⟩ := exists_of_chain hall hs
    exact hxy s hrank
  case leftmost =>
    intro j hj s hs
    have htake : (before ++ a :: b :: rest).take (before.length + 1) = before ++ [a] :=
      List.take_length_add_append 1
    rw [← pairRank_take (Nat.succ_lt_succ hj), htake] at hs
    obtain ⟨x, y, hxy, hrank⟩ := exists_of_chain hbefore hs
    exact hxy s hrank

variable [DecidableEq α]

/-- Joining a pair of the lowest rank wherever it stands is joining best pairs one by one: what is
made of it ranks higher with its neighbours. -/
theorem joinAll_steps (hord : Ordered rank) (ha : a ≠ []) (hb : b ≠ []) (hr : rank a b = some r)
    (hbefore : (before ++ rest.take 1).IsChain (Above rank r))
    (hrest : rest.IsChain (AtLeast rank r)) :
    Relation.ReflTransGen (Joins rank) (before ++ rest) (before ++ joinAll a b rest) := by
  fun_induction joinAll a b rest generalizing before with
  | case1 x y rest hpair ih =>
    obtain ⟨rfl, rfl⟩ := hpair
    have hleft (u : List α) : Above rank r u (x ++ y) := fun s hs =>
      hord.later x y r u s ha hb hr (Or.inl hs)
    have hright (u : List α) : Above rank r (x ++ y) u := fun s hs =>
      hord.later x y r u s ha hb hr (Or.inr hs)
    have hjoins : Joins rank (before ++ x :: y :: rest) (before ++ (x ++ y) :: rest) :=
      ⟨r, before.length, isBest_append hbefore hrest hr, mergeAt_append.symm⟩
    refine .head hjoins ?_
    rw [List.append_cons before (x ++ y) rest,
      List.append_cons before (x ++ y) (joinAll x y rest)]
    apply ih
    · rw [List.isChain_append]
      refine ⟨?_, ?_, ?_⟩
      · rw [List.isChain_append]
        exact ⟨hbefore.left_of_append, List.isChain_singleton _, by simp [hleft]⟩
      · cases rest <;> simp
      · simp [hright]
    · exact hrest.tail.tail
  | case2 x y rest hpair ih =>
    rw [List.append_cons before x (y :: rest),
      List.append_cons before x (joinAll a b (y :: rest))]
    obtain ⟨hxy, hrest⟩ := List.isChain_cons_cons.1 hrest
    apply ih _ hrest
    rw [List.isChain_append]
    refine ⟨hbefore, by simp, ?_⟩
    have habove : Above rank r x y := by
      intro s hs
      refine Nat.lt_of_le_of_ne (hxy s hs) ?_
      rintro rfl
      exact hpair (hord.inj x y a b r hs hr)
    simp [habove]
  | case3 pieces hshort => exact .refl

theorem joinAll_length_le (a b : List α) (pieces : List (List α)) :
    (joinAll a b pieces).length ≤ pieces.length := by
  fun_induction joinAll a b pieces with
  | case1 x y rest hpair ih => simp only [List.length_cons]; omega
  | case2 x y rest hpair ih => simpa using ih
  | case3 pieces hshort => exact Nat.le_refl _

theorem joinAll_length_lt (h : [a, b] <:+: pieces) :
    (joinAll a b pieces).length < pieces.length := by
  fun_induction joinAll a b pieces with
  | case1 x y rest hpair ih =>
    have hle := joinAll_length_le a b rest
    simp only [List.length_cons]
    omega
  | case2 x y rest hpair ih =>
    rw [List.length_cons, List.length_cons]
    apply Nat.succ_lt_succ
    apply ih
    rcases List.infix_cons_iff.1 h with hhead | hinfix
    · rw [List.cons_prefix_cons, List.cons_prefix_cons] at hhead
      exact absurd ⟨hhead.1.symm, hhead.2.1.symm⟩ hpair
    · exact hinfix
  | case3 pieces hshort =>
    exfalso
    have hlength := h.length_le
    match pieces, hshort with
    | [], _ => simp at hlength
    | [_], _ => simp at hlength
    | x :: y :: rest, hshort => exact hshort x y rest rfl

theorem roundLoop_spec (hord : Ordered rank) (fuel : Nat) (hfuel : pieces.length ≤ fuel)
    (hne : ∀ p ∈ pieces, p ≠ []) :
    Relation.ReflTransGen (Joins rank) pieces (roundLoop rank fuel pieces) ∧
      Irreducible rank (roundLoop rank fuel pieces) := by
  induction fuel generalizing pieces with
  | zero => exact ⟨.refl, fun i => pairRank_eq_none (Nat.le_trans hfuel (Nat.zero_le _))⟩
  | succ fuel ih =>
    unfold roundLoop
    cases hpair : bestPair rank pieces with
    | none => exact ⟨.refl, irreducible_of_bestPair hpair⟩
    | some best =>
      have hbest : IsBest rank pieces best.1 best.2 := isBest_of_bestPair hpair
      obtain ⟨before, a, b, behind, rfl, hlength, hr⟩ := exists_of_pairRank hbest.ranked
      have hfirst : (before ++ a :: b :: behind).getD best.2 [] = a := by simp [← hlength]
      have hsecond : (before ++ a :: b :: behind).getD (best.2 + 1) [] = b := by simp [← hlength]
      have hall : (before ++ a :: b :: behind).IsChain (AtLeast rank best.1) := by
        rw [List.isChain_iff_forall_rel_of_append_cons_cons]
        intro x y u v huv s hs
        apply hbest.least u.length
        rw [huv]
        simp [pairRank, hs]
      have hsteps : Relation.ReflTransGen (Joins rank) (before ++ a :: b :: behind)
          (joinAll a b (before ++ a :: b :: behind)) := by
        rw [← List.nil_append (before ++ a :: b :: behind), ← List.nil_append (joinAll a b _)]
        apply joinAll_steps hord (hne a (by simp)) (hne b (by simp)) hr ?_ hall
        cases before <;> simp
      have hshorter : (joinAll a b (before ++ a :: b :: behind)).length <
          (before ++ a :: b :: behind).length := joinAll_length_lt ⟨before, behind, by simp⟩
      have hne' : ∀ p ∈ joinAll a b (before ++ a :: b :: behind), p ≠ [] := by
        refine steps_forall hsteps ?_ hne
        intro x y s _ hx _ hxy
        exact hx (List.append_eq_nil_iff.1 hxy).1
      dsimp only
      rw [hfirst, hsecond]
      obtain ⟨hrest, hdone⟩ := ih (by omega) hne'
      exact ⟨hsteps.trans hrest, hdone⟩

/-- One join at a time or in rounds, the pieces are the same. -/
theorem merged_eq_rounds (hord : Ordered rank) (hne : ∀ p ∈ pieces, p ≠ []) :
    merged rank pieces = rounds rank pieces := by
  obtain ⟨hsteps, hdone⟩ := roundLoop_spec hord pieces.length (Nat.le_refl _) hne
  exact merged_unique hsteps hdone

end Steps

section Alike

variable {x : List α} {fuel m : Nat}

theorem bestFrom_replicate (hr : rank x x = some r) :
    bestFrom rank i (some (r, j)) (List.replicate n x) = some (r, j) := by
  induction n generalizing i with
  | zero => rfl
  | succ n ih =>
    cases n with
    | zero => rfl
    | succ n =>
      have hbetter : better (some (r, j)) (rank x x) i = some (r, j) := by simp [better, hr]
      rw [List.replicate_succ, List.replicate_succ, bestFrom, hbetter, ← List.replicate_succ]
      exact ih

/-- Of pieces that are all the same, the first two are the best pair. -/
theorem bestPair_replicate (hr : rank x x = some r) :
    bestPair rank (List.replicate (n + 2) x) = some (r, 0) := by
  have hbetter : better none (rank x x) 0 = some (r, 0) := by simp [better, hr]
  unfold bestPair
  rw [List.replicate_succ, List.replicate_succ, bestFrom, hbetter, ← List.replicate_succ,
    bestFrom_replicate hr]

variable [DecidableEq α]

theorem joinAll_replicate (x : List α) (m : Nat) :
    joinAll x x (List.replicate (2 * m) x) = List.replicate m (x ++ x) := by
  induction m with
  | zero => rfl
  | succ m ih =>
    rw [Nat.mul_succ, List.replicate_succ, List.replicate_succ, joinAll, if_pos ⟨rfl, rfl⟩, ih,
      List.replicate_succ]

/-- A round joins them two by two. -/
theorem roundLoop_replicate (hm : 0 < m) (hr : rank x x = some r) :
    roundLoop rank (fuel + 1) (List.replicate (2 * m) x) =
      roundLoop rank fuel (List.replicate m (x ++ x)) := by
  obtain ⟨k, rfl⟩ : ∃ k, m = k + 1 := ⟨m - 1, by omega⟩
  have hbest : bestPair rank (List.replicate (2 * (k + 1)) x) = some (r, 0) :=
    bestPair_replicate hr
  have hget (i : Nat) (hi : i < 2) : (List.replicate (2 * (k + 1)) x).getD i [] = x := by
    rw [List.getD_eq_getElem?_getD, List.getElem?_replicate, if_pos (by omega), Option.getD_some]
  rw [roundLoop, hbest]
  dsimp only
  rw [hget 0 (by decide), hget 1 (by decide), joinAll_replicate]

theorem roundLoop_singleton (fuel : Nat) (x : List α) : roundLoop rank fuel [x] = [x] := by
  cases fuel <;> rfl

end Alike

end VgEngine.Lib.RankedMerge
