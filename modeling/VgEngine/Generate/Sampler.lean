import VgEngine.Lib.Cumulative
import VgEngine.Speculative.Greedy
import Mathlib.Algebra.BigOperators.Field
import Mathlib.Analysis.SpecialFunctions.Exp

/-! The sampler of the engine: the candidates are sorted by weight, the filters cut the ranking
short, and a draw picks from what is left. -/
namespace VgEngine.Generate
open Finset Cumulative Speculative

/-- `VG_Cand` -/
structure VgCand (K : Type*) where
  p : K
  id : Nat

section Model

variable {K : Type*} [Field K] [LinearOrder K]

/-- `cand_desc` -/
def candDesc (x y : VgCand K) : Int :=
  if x.p < y.p then 1
  else if y.p < x.p then -1
  else if x.id < y.id then -1
  else if y.id < x.id then 1
  else 0

/-- `qsort` of the candidates by `cand_desc` -/
def sortCands (cand : List (VgCand K)) : List (VgCand K) :=
  cand.mergeSort fun x y => candDesc x y ≤ 0

def nextRng (rng : Nat) : Nat := (rng * 1103515245 + 12345) % 2 ^ 32

/-- The upper 24 bits of the random state, as a fraction. -/
def drawOf (rng : Nat) : K := ((rng / 2 ^ 8 : Nat) : K) / 16777216

/-- The weight of a token before it is divided by the total. -/
def weight (exp : K → K) (logits : Nat → K) (nVocab : Nat) (temperature : K) (i : Nat) : K :=
  exp ((logits i - logits (argmax logits nVocab)) / temperature)

/-- How many candidates the limit on their number keeps. -/
def keepTopK (topK : Int) (nVocab : Nat) : Nat :=
  if 0 < topK ∧ topK.toNat < nVocab then topK.toNat else nVocab

/-- How many of the first `keep` candidates the limit on their mass keeps. -/
def keepTopP (topP : K) (p : Nat → K) (total : K) (keep : Nat) : Nat :=
  if 0 < topP ∧ topP < 1 then
    match firstReach p (topP * total) keep 0 0 with
    | some i => i + 1
    | none => keep
  else keep

/-- `sample_next_token`: the token, and the random state after it. `cand` tells whether there is
room for the candidates. -/
def sampleNextToken (exp : K → K) (cand : Bool) (logits : Nat → K) (nVocab : Nat) (temperature : K)
    (topK : Int) (topP : K) (rng : Nat) : Int × Nat :=
  let rng := nextRng rng
  if temperature ≤ 0 ∨ topK = 1 ∨ cand = false then (argmax logits nVocab, rng)
  else
    let cands := (List.range nVocab).map fun i =>
      (⟨weight exp logits nVocab temperature i, i⟩ : VgCand K)
    let total := ∑ i ∈ range nVocab, weight exp logits nVocab temperature i
    if ¬ 0 < total then (argmax logits nVocab, rng)
    else
      let sorted := sortCands cands
      let p := fun i => (sorted.getD i ⟨0, 0⟩).p
      let keep := keepTopP topP p total (keepTopK topK nVocab)
      let norm := ∑ i ∈ range keep, p i
      if ¬ 0 < norm then (argmax logits nVocab, rng)
      else
        let i := (firstReach (fun i => p i / norm) (drawOf rng) keep 0 0).getD 0
        ((sorted.getD i ⟨0, 0⟩).id, rng)

/-- The tokens from the largest weight down, those of one weight by id. -/
def ranking (w : Nat → K) (nVocab : Nat) : List Nat :=
  (List.range nVocab).mergeSort fun i j => w j < w i ∨ (w i = w j ∧ i ≤ j)

end Model

section Ranking

variable {K : Type*} [LinearOrder K] {w : Nat → K} {n : Nat}

theorem candDesc_le_zero (i j : Nat) :
    candDesc (⟨w i, i⟩ : VgCand K) ⟨w j, j⟩ ≤ 0 ↔ w j < w i ∨ (w i = w j ∧ i ≤ j) := by
  unfold candDesc
  dsimp only
  rcases lt_trichotomy (w i) (w j) with hlt | heq | hgt
  · simp [hlt, hlt.ne, hlt.not_gt]
  · rw [if_neg heq.not_lt, if_neg heq.symm.not_lt]
    split
    · simp [heq]
      omega
    · split
      · simp [heq]
        omega
      · simp [heq]
        omega
  · simp [hgt, hgt.not_gt]

/-- The sorted candidates are the ranked tokens with their weights. -/
theorem sortCands_eq : sortCands ((List.range n).map fun i => (⟨w i, i⟩ : VgCand K)) =
    (ranking w n).map fun i => ⟨w i, i⟩ := by
  unfold sortCands ranking
  symm
  apply List.map_mergeSort
  intro i _ j _
  exact decide_eq_decide.2 (candDesc_le_zero i j).symm

theorem getD_candidates [Zero K] {i : Nat} (hi : i < (ranking w n).length) :
    ((ranking w n).map fun i => (⟨w i, i⟩ : VgCand K)).getD i ⟨0, 0⟩ =
      ⟨w ((ranking w n).getD i 0), (ranking w n).getD i 0⟩ := by
  simp [List.getD_eq_getElem?_getD, List.getElem?_eq_getElem hi]

variable (w n)

theorem ranking_perm : (ranking w n).Perm (List.range n) := List.mergeSort_perm _ _

@[simp] theorem length_ranking : (ranking w n).length = n :=
  (ranking_perm w n).length_eq.trans List.length_range

theorem ranking_sorted :
    (ranking w n).Pairwise fun i j => w j < w i ∨ (w i = w j ∧ i ≤ j) := by
  have hsorted : (ranking w n).Pairwise fun i j => decide (w j < w i ∨ (w i = w j ∧ i ≤ j)) := by
    apply List.pairwise_mergeSort
    · intro a b c hab hbc
      simp only [decide_eq_true_eq] at hab hbc ⊢
      rcases hab with hab | ⟨hab, hle⟩ <;> rcases hbc with hbc | ⟨hbc, hle'⟩
      · exact Or.inl (hbc.trans hab)
      · exact Or.inl (hbc ▸ hab)
      · exact Or.inl (hab ▸ hbc)
      · exact Or.inr ⟨hab.trans hbc, hle.trans hle'⟩
    · intro a b
      simp only [Bool.or_eq_true, decide_eq_true_eq]
      rcases lt_trichotomy (w a) (w b) with hlt | heq | hgt
      · exact Or.inr (Or.inl hlt)
      · rcases Nat.le_total a b with hle | hle
        · exact Or.inl (Or.inr ⟨heq, hle⟩)
        · exact Or.inr (Or.inr ⟨heq.symm, hle⟩)
      · exact Or.inl (Or.inl hgt)
  exact hsorted.imp fun h => of_decide_eq_true h

variable {n} in
/-- A token that is ahead of all the others comes first. -/
theorem ranking_head {x : Nat} (hx : x < n)
    (hahead : ∀ y < n, w y < w x ∨ (w x = w y ∧ x ≤ y)) : (ranking w n)[0]? = some x := by
  have hmem : x ∈ ranking w n := (ranking_perm w n).mem_iff.2 (List.mem_range.2 hx)
  cases hranking : ranking w n with
  | nil =>
    rw [hranking] at hmem
    cases hmem
  | cons y ys =>
    have hsorted := ranking_sorted w n
    rw [hranking] at hmem hsorted
    rcases List.mem_cons.1 hmem with rfl | hrest
    · rfl
    · have hy : y < n :=
        List.mem_range.1 ((ranking_perm w n).mem_iff.1 (hranking ▸ List.mem_cons_self))
      have hyx := List.rel_of_pairwise_cons hsorted hrest
      rcases hahead y hy with hlt | ⟨heq, hle⟩
      · rcases hyx with hgt | ⟨heq, -⟩
        · exact absurd hgt hlt.not_gt
        · exact absurd heq hlt.ne
      · rcases hyx with hgt | ⟨-, hge⟩
        · exact absurd heq hgt.ne
        · rw [Nat.le_antisymm hge hle]
          rfl

end Ranking

section Sums

variable {K : Type*} [AddCommMonoid K] (v : Nat → K)

theorem sum_take (l : List Nat) {m : Nat} (hm : m ≤ l.length) :
    ((l.take m).map v).sum = ∑ i ∈ range m, v (l.getD i 0) := by
  induction m with
  | zero => simp
  | succ m ih =>
    have hlt : m < l.length := hm
    rw [sum_range_succ, ← ih (by omega), List.take_add_one, List.getElem?_eq_getElem hlt]
    simp [List.getD_eq_getElem?_getD, hlt]

theorem sum_ranking [LinearOrder K] (w : Nat → K) (n : Nat) :
    ∑ i ∈ range n, v ((ranking w n).getD i 0) = ∑ i ∈ range n, v i := by
  have hall := sum_take v (ranking w n) (le_of_eq (length_ranking w n).symm)
  rw [List.take_of_length_le (le_of_eq (length_ranking w n)),
    ((ranking_perm w n).map v).sum_eq] at hall
  exact hall.symm

end Sums

theorem keepTopK_le (topK : Int) (n : Nat) : keepTopK topK n ≤ n := by
  unfold keepTopK
  split <;> omega

theorem keepTopK_pos (topK : Int) {n : Nat} (hn : 0 < n) : 0 < keepTopK topK n := by
  unfold keepTopK
  split <;> omega

section Filters

variable {K : Type*} [Field K] [LinearOrder K] [IsStrictOrderedRing K] {p : Nat → K}
variable {topP total : K} {keep i m : Nat}

omit [IsStrictOrderedRing K] in
theorem keepTopP_le : keepTopP topP p total keep ≤ keep := by
  unfold keepTopP
  split
  · split
    · rename_i hfound
      exact (firstReach_zero_eq_some.1 hfound).1
    · exact Nat.le_refl keep
  · exact Nat.le_refl keep

omit [IsStrictOrderedRing K] in
theorem keepTopP_pos (h : 0 < keep) : 0 < keepTopP topP p total keep := by
  unfold keepTopP
  split
  · split
    · exact Nat.succ_pos _
    · exact h
  · exact h

/-- Nothing before a candidate that is kept reaches the share. -/
theorem below_of_kept (hp : ∀ j < keep, 0 < p j) (htopP : 0 < topP)
    (htotal : ∑ j ∈ range keep, p j ≤ total) (hi : i < keepTopP topP p total keep) (hm : m ≤ i) :
    ∑ j ∈ range m, p j < topP * total := by
  have hkeep : i < keep := hi.trans_le keepTopP_le
  have hnonneg (j : Nat) (hj : j ∈ range keep) : 0 ≤ p j := (hp j (mem_range.1 hj)).le
  have hless : ∑ j ∈ range m, p j < total := by
    refine lt_of_lt_of_le ?_ htotal
    apply sum_lt_sum_of_subset (range_mono (hm.trans hkeep.le)) (mem_range.2 hkeep)
    · exact fun h => absurd (mem_range.1 h) (not_lt.2 hm)
    · exact hp i hkeep
    · exact fun j hj _ => hnonneg j hj
  by_cases hone : topP < 1
  · unfold keepTopP at hi
    rw [if_pos ⟨htopP, hone⟩] at hi
    cases m with
    | zero =>
      rw [sum_range_zero] at hless ⊢
      exact mul_pos htopP hless
    | succ m =>
      split at hi
      · rename_i hfound
        exact (firstReach_zero_eq_some.1 hfound).2.2 m (by omega)
      · rename_i hnone
        exact firstReach_zero_eq_none.1 hnone m (by omega)
  · calc ∑ j ∈ range m, p j < total := hless
      _ ≤ topP * total := le_mul_of_one_le_left (le_trans (sum_nonneg hnonneg) htotal) (not_lt.1 hone)

end Filters

section Property

variable {K : Type*} [Field K] [LinearOrder K] [IsStrictOrderedRing K]

/-- A token is among the first `topK` of the ranking, and in the shortest prefix of the ranking that
holds `topP` of the total weight. A limit that is not positive is none. -/
structure Respects (w : Nat → K) (nVocab : Nat) (topK : Int) (topP : K) (x : Nat) : Prop where
  token : x < nVocab
  count : 0 < topK → x ∈ (ranking w nVocab).take topK.toNat
  mass : 0 < topP → ∀ m, topP * ∑ i ∈ range nVocab, w i ≤ (((ranking w nVocab).take m).map w).sum →
    x ∈ (ranking w nVocab).take m

variable {w : Nat → K} {n : Nat} {topK : Int} {topP : K}

/-- The weights of the sorted candidates. -/
def Sorted (w p : Nat → K) (n : Nat) : Prop := ∀ j < n, p j = w ((ranking w n).getD j 0)

/-- What the filters keep of the ranking respects them. -/
theorem respects_of_kept (hw : ∀ i, 0 < w i) {p : Nat → K} (hp : Sorted w p n) {i : Nat}
    (hi : i < keepTopP topP p (∑ i ∈ range n, w i) (keepTopK topK n)) :
    Respects w n topK topP ((ranking w n).getD i 0) := by
  have hkeep := keepTopK_le topK n
  have hlt : i < keepTopK topK n := hi.trans_le keepTopP_le
  have hlength : i < (ranking w n).length := by
    rw [length_ranking]
    omega
  have htake (m : Nat) (hm : i < m) : (ranking w n).getD i 0 ∈ (ranking w n).take m := by
    rw [List.getD_eq_getElem?_getD, List.getElem?_eq_getElem hlength, Option.getD_some]
    exact List.mem_take_iff_getElem.2 ⟨i, by omega, rfl⟩
  have hsum (m : Nat) (hm : m ≤ n) :
      ∑ j ∈ range m, w ((ranking w n).getD j 0) = ∑ j ∈ range m, p j :=
    sum_congr rfl fun j hj => (hp j ((mem_range.1 hj).trans_le hm)).symm
  have hpos (j : Nat) (hj : j < n) : 0 < p j := by
    rw [hp j hj]
    exact hw _
  constructor
  case token =>
    have hmem := List.mem_of_mem_take (htake (i + 1) (Nat.lt_succ_self i))
    exact List.mem_range.1 ((ranking_perm w n).mem_iff.1 hmem)
  case count =>
    intro htopK
    apply htake
    unfold keepTopK at hlt
    split at hlt <;> omega
  case mass =>
    intro htopP m hreach
    apply htake
    by_contra hm
    rw [sum_take w _ (by omega), hsum m (by omega)] at hreach
    refine absurd hreach (not_le.2 (below_of_kept ?_ htopP ?_ hi (not_lt.1 hm)))
    · exact fun j hj => hpos j (hj.trans_le hkeep)
    · rw [← sum_ranking w w n, hsum n (Nat.le_refl n)]
      exact sum_le_sum_of_subset_of_nonneg (range_mono hkeep) fun j hj _ => (hpos j (mem_range.1 hj)).le

/-- The token that comes first respects every filter. -/
theorem respects_first (hw : ∀ i, 0 < w i) {x : Nat} (hx : x < n)
    (hahead : ∀ y < n, w y < w x ∨ (w x = w y ∧ x ≤ y)) : Respects w n topK topP x := by
  have hfirst : Respects w n topK topP ((ranking w n).getD 0 0) :=
    respects_of_kept hw (fun _ _ => rfl) (keepTopP_pos (keepTopK_pos topK (Nat.zero_lt_of_lt hx)))
  rwa [List.getD_eq_getElem?_getD, ranking_head w hx hahead] at hfirst

/-- The largest logit has the largest weight. -/
theorem argmax_ahead {exp : K → K} (hexp : StrictMono exp) (logits : Nat → K) {nVocab : Nat}
    {temperature : K} (htemp : 0 < temperature) (y : Nat) (hy : y < nVocab) :
    weight exp logits nVocab temperature y <
        weight exp logits nVocab temperature (argmax logits nVocab) ∨
      (weight exp logits nVocab temperature (argmax logits nVocab) =
        weight exp logits nVocab temperature y ∧ argmax logits nVocab ≤ y) := by
  have hless (h : logits y < logits (argmax logits nVocab)) :
      weight exp logits nVocab temperature y <
        weight exp logits nVocab temperature (argmax logits nVocab) :=
    hexp (div_lt_div_of_pos_right (sub_lt_sub_right h _) htemp)
  rcases (le_argmax logits hy).lt_or_eq with hlt | heq
  · exact Or.inl (hless hlt)
  · by_cases hle : argmax logits nVocab ≤ y
    · refine Or.inr ⟨?_, hle⟩
      unfold weight
      rw [heq]
    · exact Or.inl (hless (lt_argmax logits (not_le.1 hle)))

omit [IsStrictOrderedRing K] in
theorem getD_firstReach_lt {p : Nat → K} {r : K} {keep : Nat} (hkeep : 0 < keep) :
    (firstReach p r keep 0 0).getD 0 < keep := by
  cases hfound : firstReach p r keep 0 0 with
  | none => exact hkeep
  | some i => exact (firstReach_zero_eq_some.1 hfound).1

/-- The token sampled respects the filters. -/
theorem sampleNextToken_respects {exp : K → K} (hexp : ∀ x, 0 < exp x) (hmono : StrictMono exp)
    (cand : Bool) (logits : Nat → K) {nVocab : Nat} (hvocab : 0 < nVocab) {temperature : K}
    (htemp : 0 < temperature) (topK : Int) (topP : K) (rng : Nat) :
    ∃ x : Nat, (sampleNextToken exp cand logits nVocab temperature topK topP rng).1 = x ∧
      Respects (weight exp logits nVocab temperature) nVocab topK topP x := by
  have hw (i : Nat) : 0 < weight exp logits nVocab temperature i := hexp _
  have hfirst : Respects (weight exp logits nVocab temperature) nVocab topK topP
      (argmax logits nVocab) :=
    respects_first hw (argmax_lt logits hvocab) (argmax_ahead hmono logits htemp)
  unfold sampleNextToken
  dsimp only
  rw [sortCands_eq]
  generalize weight exp logits nVocab temperature = w at hw hfirst ⊢
  have hlength {i : Nat} (hi : i < nVocab) : i < (ranking w nVocab).length := by
    rwa [length_ranking]
  have hsorted : Sorted w (fun i => (((ranking w nVocab).map fun i =>
      (⟨w i, i⟩ : VgCand K)).getD i ⟨0, 0⟩).p) nVocab :=
    fun j hj => congrArg VgCand.p (getD_candidates (hlength hj))
  split
  · exact ⟨_, rfl, hfirst⟩
  · split
    · exact ⟨_, rfl, hfirst⟩
    · split
      · exact ⟨_, rfl, hfirst⟩
      · -- the candidate is one that the filters keep
        refine ⟨_, congrArg (fun c : VgCand K => (c.id : Int)) (getD_candidates (hlength ?_)),
          respects_of_kept hw hsorted ?_⟩
        · exact lt_of_lt_of_le (getD_firstReach_lt (keepTopP_pos (keepTopK_pos topK hvocab)))
            (keepTopP_le.trans (keepTopK_le _ _))
        · exact getD_firstReach_lt (keepTopP_pos (keepTopK_pos topK hvocab))

theorem sampleNextToken_respects_two : ∃ x : Nat,
    (sampleNextToken Real.exp true (fun i => i) 2 1 1 (1 / 2) 42).1 = x ∧
      Respects (weight Real.exp (fun i => i) 2 1) 2 1 (1 / 2) x :=
  sampleNextToken_respects Real.exp_pos Real.exp_strictMono true _ two_pos one_pos 1 _ 42

/-- With a limit of no tokens at all, some token is sampled all the same. -/
theorem sampleNextToken_unlimited :
    ¬ ∀ (logits : Nat → ℝ) (nVocab : Nat) (temperature : ℝ) (topK : Int) (topP : ℝ) (rng : Nat),
      0 < nVocab → 0 < temperature →
      ∃ x : Nat, (sampleNextToken Real.exp true logits nVocab temperature topK topP rng).1 = x ∧
        x ∈ (ranking (weight Real.exp logits nVocab temperature) nVocab).take topK.toNat ∧
        ∀ m, topP * ∑ i ∈ range nVocab, weight Real.exp logits nVocab temperature i ≤
            (((ranking (weight Real.exp logits nVocab temperature) nVocab).take m).map
              (weight Real.exp logits nVocab temperature)).sum →
          x ∈ (ranking (weight Real.exp logits nVocab temperature) nVocab).take m := by
  intro hclaim
  obtain ⟨x, -, hmem, -⟩ := hclaim (fun _ => 0) 1 1 0 1 42 one_pos one_pos
  exact List.not_mem_nil hmem

end Property

end VgEngine.Generate
