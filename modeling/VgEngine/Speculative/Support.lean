import VgEngine.Speculative.Sampling

/-! The support of what a speculative step writes. A draw of zero is below every acceptance
probability and every cumulative sum, also where these are zero. -/
namespace VgEngine.Speculative
open Finset UnitDraw

section Scan

variable {n : ℕ} {w : ℕ → ℝ} {take : ℕ → Bool} {r acc : ℝ} {i x : ℕ}

theorem scan_take (h : scan take w r n i acc = some x) : take x = true ∧ i ≤ x ∧ x < i + n := by
  induction n generalizing i acc with
  | zero =>
    rw [scan] at h
    cases h
  | succ n ih =>
    rw [scan] at h
    split at h
    · rename_i htake
      split at h
      · obtain rfl := Option.some.inj h
        exact ⟨htake, Nat.le_refl _, by omega⟩
      · obtain ⟨hx, hlo, hhi⟩ := ih h
        exact ⟨hx, by omega, by omega⟩
    · obtain ⟨hx, hlo, hhi⟩ := ih h
      exact ⟨hx, by omega, by omega⟩

/-- A bound that is reached by the entries taken is found, be it zero. -/
theorem scan_found (htake : ∀ j, take j = false → w j = 0)
    (hreach : r ≤ acc + ∑ j ∈ Ico i (i + n), w j)
    (hsome : acc < r ∨ ∃ j, i ≤ j ∧ j < i + n ∧ take j = true) :
    ∃ y, scan take w r n i acc = some y := by
  induction n generalizing i acc with
  | zero =>
    rcases hsome with hlt | ⟨j, hlo, hhi, -⟩
    · exact scan_isSome htake hlt hreach
    · omega
  | succ n ih =>
    rcases hsome with hlt | ⟨j, hlo, hhi, hj⟩
    · exact scan_isSome htake hlt hreach
    · rw [sum_eq_sum_Ico_succ_bot (by omega), show i + (n + 1) = i + 1 + n by omega, ← add_assoc]
        at hreach
      rw [scan]
      by_cases hi : take i = true
      · rw [if_pos hi]
        by_cases hr : r ≤ acc + w i
        · rw [if_pos hr]
          exact ⟨i, rfl⟩
        · rw [if_neg hr]
          exact ih hreach (Or.inl (not_le.1 hr))
      · rw [if_neg hi]
        have hzero := htake i (by simpa using hi)
        have hne : j ≠ i := by
          rintro rfl
          exact hi hj
        rw [hzero, add_zero] at hreach
        exact ih hreach (Or.inr ⟨j, by omega, by omega, hj⟩)

end Scan

section Outcome

variable {n : ℕ} {p q : ℕ → ℝ} {t : ℝ × ℝ × ℝ}

/-- A draw from the unit interval. -/
def IsDraw (r : ℝ) : Prop := 0 ≤ r ∧ r < 1

/-- The proposal for a draw. -/
noncomputable def proposal (q : ℕ → ℝ) (n : ℕ) (r : ℝ) : ℕ :=
  (sampleFrom (fun u : ℝ => (u, u)) q n r).1

theorem proposal_zero (hn : 0 < n) (hq : IsDist q n) : proposal q n 0 = 0 := by
  obtain ⟨left, rfl⟩ := Nat.exists_eq_add_of_lt hn
  unfold proposal sampleFrom
  dsimp only
  rw [Nat.zero_add, scan, if_pos rfl, if_pos (by rw [zero_add]; exact hq.nonneg 0)]
  rfl

theorem proposal_lt (hn : 0 < n) (hq : IsDist q n) {r : ℝ} (hr : IsDraw r) : proposal q n r < n := by
  rcases hr.1.eq_or_lt with rfl | hpos
  · rw [proposal_zero hn hq]
    exact hn
  · exact sampleFrom_lt hq ⟨hpos, hr.2⟩

/-- Only the draw zero proposes a token that the draft gives no probability. -/
theorem proposal_pos (hq : IsDist q n) {r : ℝ} (hr : 0 < r ∧ r < 1) :
    0 < q (proposal q n r) := by
  have hlt := sampleFrom_lt hq hr
  have hslot := (sampleFrom_iff hq hr hlt).1 rfl
  have hsums := hslot.1.trans_le hslot.2
  rw [div_one, div_one, sum_range_succ] at hsums
  exact pos_of_lt_add_right hsums

/-- The replacement of a rejected proposal has a positive probability, where anything is left of
the target once the draft is taken away. -/
theorem replacement_pos (hq : IsDist q n) {r : ℝ} (hr : IsDraw r)
    (hleft : 0 < ∑ i ∈ range n, residual p q i) :
    0 < p (sampleResidual (fun u : ℝ => (u, u)) q p n r).1 := by
  have htotal : (∑ i ∈ range n, if 0 < p i - q i then p i - q i else 0) =
      ∑ i ∈ range n, residual p q i := rfl
  have hscan (b : ℝ) : scan (fun i => decide (0 < p i - q i)) (fun i => p i - q i) b n 0 0 =
      scan (fun i => decide (0 < p i - q i)) (residual p q) b n 0 0 := by
    apply scan_congr
    intro i hi
    exact (if_pos (of_decide_eq_true hi)).symm
  unfold sampleResidual
  dsimp only
  rw [htotal, if_pos hleft, hscan]
  -- some entry is taken, since the residual is not zero everywhere
  have htaken : ∃ j, 0 ≤ j ∧ j < 0 + n ∧ decide (0 < p j - q j) = true := by
    by_contra hnone
    refine absurd (sum_eq_zero fun i hi => ?_) hleft.ne'
    refine if_neg fun hpos => hnone ⟨i, Nat.zero_le i, ?_, decide_eq_true hpos⟩
    rw [Nat.zero_add]
    exact mem_range.1 hi
  have hfound : ∃ y, scan (fun i => decide (0 < p i - q i)) (residual p q)
      (r * ∑ i ∈ range n, residual p q i) n 0 0 = some y := by
    apply scan_found
    · exact fun j hj => if_neg (by simpa using hj)
    · rw [zero_add, Nat.zero_add, ← range_eq_Ico]
      exact mul_le_of_le_one_left hleft.le hr.2.le
    · exact Or.inr htaken
  obtain ⟨y, hy⟩ := hfound
  rw [hy, Option.getD_some]
  have hpos := of_decide_eq_true (scan_take hy).1
  linarith [hq.nonneg y]

/-- Where nothing of the target is left once the draft is taken away, the two agree. -/
theorem eq_of_residual (hp : IsDist p n) (hq : IsDist q n)
    (hnone : ¬ 0 < ∑ i ∈ range n, residual p q i) {i : ℕ} (hi : i < n) : p i = q i := by
  have hnonneg : ∀ j ∈ range n, 0 ≤ residual p q j := fun j _ => residual_nonneg j
  have hzero := (sum_eq_zero_iff_of_nonneg hnonneg).1
    (le_antisymm (not_lt.1 hnone) (sum_nonneg hnonneg))
  have hle : ∀ j ∈ range n, p j ≤ q j := by
    intro j hj
    have hj0 := hzero j hj
    rw [residual_eq, sub_eq_zero] at hj0
    rw [hj0]
    exact min_le_left _ _
  exact (sum_eq_sum_iff_of_le hle).1 (hp.sum.trans hq.sum.symm) i (mem_range.2 hi)

/-- The token written at a position has a positive probability under the target unless a draw of
zero has accepted a token without any, or proposed one that the draft gives none either. -/
theorem outcome_pos_iff (hn : 0 < n) (hp : IsDist p n) (hq : IsDist q n) (hr : IsDraw t.1)
    (hu : IsDraw t.2.1) (hv : IsDraw t.2.2) :
    0 < p (outcome p q n t) ↔
      (t.1 = 0 → q 0 = 0 → 0 < p 0) ∧ (t.2.1 = 0 → 0 < p (proposal q n t.1)) := by
  have hlt := proposal_lt hn hq hr
  have hunfold : outcome p q n t = if t.2.1 ≤ acceptP p q (proposal q n t.1) then proposal q n t.1
      else (sampleResidual (fun u : ℝ => (u, u)) q p n t.2.2).1 := rfl
  have hmem := acceptP_mem hp (q := q) (proposal q n t.1)
  rw [hunfold]
  split
  · rename_i haccept
    constructor
    · intro hpos
      refine ⟨fun hzero _ => ?_, fun _ => hpos⟩
      rwa [hzero, proposal_zero hn hq] at hpos
    · rintro ⟨hfirst, hsecond⟩
      by_contra hnone
      have hzero : p (proposal q n t.1) = 0 := le_antisymm (not_lt.1 hnone) (hp.nonneg _)
      rcases hr.1.eq_or_lt with heq | hpos
      · -- token 0 is proposed, and the draft gives it some probability
        rw [← heq, proposal_zero hn hq] at hzero haccept hsecond
        have hdraft : 0 < q 0 := by
          refine lt_of_le_of_ne (hq.nonneg 0) fun hq0 => ?_
          exact (hfirst heq.symm hq0.symm).ne' hzero
        unfold acceptP at haccept
        rw [if_pos hdraft, hzero, zero_div, min_eq_right zero_le_one] at haccept
        exact (hsecond (le_antisymm haccept hu.1)).ne' hzero
      · unfold acceptP at haccept
        rw [if_pos (proposal_pos hq ⟨hpos, hr.2⟩), hzero, zero_div, min_eq_right zero_le_one]
          at haccept
        exact (hsecond (le_antisymm haccept hu.1)).ne' hzero
  · rename_i hreject
    have hleft : 0 < ∑ i ∈ range n, residual p q i := by
      by_contra hnone
      apply hreject
      unfold acceptP
      split
      · rename_i hpos
        rw [eq_of_residual hp hq hnone hlt, div_self hpos.ne', min_self]
        exact hu.2.le
      · exact hu.2.le
    refine iff_of_true (replacement_pos hq hv hleft) ⟨fun hzero hq0 => ?_, fun hzero => ?_⟩
    · -- a proposal without any probability is always accepted
      exfalso
      apply hreject
      rw [hzero, proposal_zero hn hq]
      unfold acceptP
      rw [if_neg (by rw [hq0]; exact lt_irrefl 0)]
      exact hu.2.le
    · rw [hzero] at hreject
      exact absurd hmem.1 hreject

end Outcome

section Step

variable {exp : ℝ → ℝ} {cfg : Config ℝ ℕ} {u : ℕ → ℝ}

variable (exp) in
/-- A greedy continuation takes the first token of largest logit, whose target distribution is the
token itself. -/
theorem greedy_pos (htemp : cfg.temp ≤ 0) {n i x : ℕ} {h : List ℕ}
    (hx : (greedy cfg.target n h)[i]? = some x) :
    0 < softmax exp cfg cfg.target (h ++ (greedy cfg.target n h).take i) x := by
  induction n generalizing i h with
  | zero => cases hx
  | succ n ih =>
    rw [greedy] at hx ⊢
    split at hx
    · cases hx
    · rename_i hctx
      rw [if_neg hctx]
      cases i with
      | zero =>
        obtain rfl := Option.some.inj hx
        rw [List.take_zero, List.append_nil]
        unfold softmax
        rw [distFromLogits_zero _ _ htemp]
        unfold oneHot
        rw [if_pos rfl]
        exact one_pos
      | succ i =>
        have hrest := ih hx
        rw [List.append_assoc, List.singleton_append] at hrest
        exact hrest

theorem redraw_self (u : ℕ → ℝ) (a b : ℕ) : redraw u a b (u a, u b, u (b + 1)) = u := by
  unfold redraw
  rw [Function.update_eq_self, Function.update_eq_self, Function.update_eq_self]

/-- The token at a position is the outcome of its three draws. -/
theorem writes_outcome {i n left k m x : ℕ} {h g : List ℕ} (hm : k + n ≤ m)
    (hx : (writes exp cfg u n left k m h g)[i]? = some x) :
    x = outcome (softmax exp cfg cfg.target (h ++ (writes exp cfg u n left k m h g).take i))
      (softmax exp cfg cfg.draftModel (g ++ (writes exp cfg u n left k m h g).take i))
      cfg.target.nVocab (u (k + i), u (m + i), u (m + i + 1)) := by
  obtain ⟨hi, -⟩ := List.getElem?_eq_some_iff.1 hx
  have hredraw := (writes_redraw hm hi (u (k + i), u (m + i), u (m + i + 1))).2
  rw [redraw_self, hx] at hredraw
  exact Option.some.inj hredraw

variable (cfg) in
/-- The draws at position `i` of a step that has written these tokens leave it nothing that the
target gives no probability: neither a proposal drawn with zero as token 0, where the draft gives
that none, nor one accepted with zero. -/
def DrawsSupported (exp : ℝ → ℝ) (u : ℕ → ℝ) (inputToken kvPos maxAccepted : ℕ) (s : State ℕ)
    (written : List ℕ) (i : ℕ) : Prop :=
  let k := cfg.localRng.getD s.rng
  let p := softmax exp cfg cfg.target
    ((List.range kvPos).map s.target ++ inputToken :: written.take i)
  let q := softmax exp cfg cfg.draftModel
    ((List.range kvPos).map (cfg.draftFed s) ++ inputToken :: written.take i)
  (u (k + i) = 0 → q 0 = 0 → 0 < p 0) ∧
    (u (k + cfg.proposed kvPos maxAccepted + i) = 0 →
      0 < p (proposal q cfg.target.nVocab (u (k + i))))

/-- Every token that a step writes has a positive probability under the target, exactly when the
draws of zero leave it nothing else. -/
theorem written_supported_iff (hexp : 0 < exp 0) (hvocab : 0 < cfg.target.nVocab)
    (hu : ∀ k, IsDraw (u k)) (allocated : Bool) (inputToken kvPos maxAccepted : ℕ) (s : State ℕ) :
    let written :=
      (speculativeStep (stream u) exp cfg allocated inputToken kvPos maxAccepted s).1
    (∀ i x, written[i]? = some x → 0 < softmax exp cfg cfg.target
        ((List.range kvPos).map s.target ++ inputToken :: written.take i) x) ↔
      (0 < cfg.temperature → ∀ i < written.length,
        DrawsSupported cfg exp u inputToken kvPos maxAccepted s written i) := by
  intro written
  by_cases htemp : 0 < cfg.temperature
  · have htemp' : 0 < cfg.temp := lt_max_of_lt_right htemp
    have hwritten : written = if maxAccepted = 0 ∨ cfg.draftVocab ≠ cfg.target.nVocab ∨
        allocated = false then [] else writes exp cfg u (cfg.proposed kvPos maxAccepted) maxAccepted
          (cfg.localRng.getD s.rng) (cfg.localRng.getD s.rng + cfg.proposed kvPos maxAccepted)
          ((List.range kvPos).map s.target ++ [inputToken])
          ((List.range kvPos).map (cfg.draftFed s) ++ [inputToken]) :=
      speculativeStep_eq htemp' allocated inputToken kvPos maxAccepted s
    have hposition (i x : ℕ) (hx : written[i]? = some x) : 0 < softmax exp cfg cfg.target
        ((List.range kvPos).map s.target ++ inputToken :: written.take i) x ↔
          DrawsSupported cfg exp u inputToken kvPos maxAccepted s written i := by
      split at hwritten
      · rw [hwritten] at hx
        cases hx
      · have houtcome := writes_outcome (Nat.le_refl _) (hwritten ▸ hx)
        rw [← hwritten] at houtcome
        simp only [List.append_assoc, List.singleton_append] at houtcome
        rw [houtcome]
        exact outcome_pos_iff hvocab (softmax_isDist hexp htemp' hvocab _ _)
          (softmax_isDist hexp htemp' hvocab _ _) (hu _) (hu _) (hu _)
    constructor
    · intro h _ i hi
      exact (hposition i _ (List.getElem?_eq_getElem hi)).1 (h i _ (List.getElem?_eq_getElem hi))
    · intro h i x hx
      exact (hposition i x hx).2 (h htemp i (List.getElem?_eq_some_iff.1 hx).1)
  · refine iff_of_true (fun i x hx => ?_) fun hpos => absurd hpos htemp
    have hcold : cfg.temp ≤ 0 := max_le (le_refl 0) (not_lt.1 htemp)
    have hgreedy := (speculativeStep_greedy (stream u) exp hcold allocated inputToken maxAccepted
      (fed_range s.target kvPos)).1
    rw [List.length_map, List.length_range] at hgreedy
    obtain ⟨n, hn⟩ : ∃ n, written = greedy cfg.target n
        ((List.range kvPos).map s.target ++ [inputToken]) := ⟨_, hgreedy⟩
    rw [hn] at hx ⊢
    have hpos := greedy_pos exp hcold hx
    rw [List.append_assoc, List.singleton_append] at hpos
    exact hpos

/-- A vocabulary of two tokens, of which the target gives the first no probability where exponentials
below that of zero vanish. -/
noncomputable def twoTokens : Config ℝ ℕ where
  target := ⟨16, 2, fun _ i => i⟩
  draft := some ⟨16, 2, fun _ _ => 0⟩
  nDraft := 1
  temperature := 1
  localRng := none

/-- An exponential function that vanishes below zero. -/
noncomputable def vanishing (x : ℝ) : ℝ := if x < 0 then 0 else 1

theorem vanishing_zero : vanishing 0 = 1 := if_neg (lt_irrefl 0)

theorem written_supported_twoTokens : ∃ u : ℕ → ℝ, (∀ k, IsDraw (u k)) ∧ ∀ i x,
    (speculativeStep (stream u) vanishing twoTokens true 0 0 1
      ⟨fun _ => 0, fun _ => 0, 0⟩).1[i]? = some x →
    0 < softmax vanishing twoTokens twoTokens.target ((List.range 0).map (fun _ => 0) ++ 0 ::
      (speculativeStep (stream u) vanishing twoTokens true 0 0 1
        ⟨fun _ => 0, fun _ => 0, 0⟩).1.take i) x := by
  have hdraw : ∀ _ : ℕ, IsDraw (1 / 2) := fun _ => ⟨by norm_num, by norm_num⟩
  have hne : (1 / 2 : ℝ) ≠ 0 := by norm_num
  refine ⟨fun _ => 1 / 2, hdraw, ?_⟩
  refine (written_supported_iff (by rw [vanishing_zero]; exact one_pos) two_pos hdraw true 0 0 1
    ⟨fun _ => 0, fun _ => 0, 0⟩).2 fun _ i _ => ⟨fun hzero => absurd hzero hne, fun hzero => ?_⟩
  exact absurd hzero hne

/-- The draft proposes token 0, and the draw zero accepts it. -/
theorem written_unsupported :
    ¬ ∀ (exp : ℝ → ℝ) (cfg : Config ℝ ℕ) (u : ℕ → ℝ) (allocated : Bool)
      (inputToken kvPos maxAccepted : ℕ) (s : State ℕ), 0 < exp 0 → 0 < cfg.target.nVocab →
      (∀ k, IsDraw (u k)) → ∀ i x,
        (speculativeStep (stream u) exp cfg allocated inputToken kvPos maxAccepted s).1[i]? = some x →
        0 < softmax exp cfg cfg.target ((List.range kvPos).map s.target ++ inputToken ::
          (speculativeStep (stream u) exp cfg allocated inputToken kvPos maxAccepted s).1.take i) x := by
  intro hclaim
  have hexp : 0 < vanishing 0 := by
    rw [vanishing_zero]
    exact one_pos
  have htemp : 0 < twoTokens.temp := lt_max_of_lt_right one_pos
  have hp := softmax_isDist hexp htemp two_pos twoTokens.target [0]
  have hq := softmax_isDist hexp htemp two_pos twoTokens.draftModel [0]
  have hdrawn : drawn vanishing twoTokens [0] 0 = 0 := proposal_zero two_pos hq
  have hwritten : (speculativeStep (stream fun _ => 0) vanishing twoTokens true 0 0 1
      ⟨fun _ => 0, fun _ => 0, 0⟩).1 = [0] := by
    rw [speculativeStep_eq htemp, if_neg (by decide), show twoTokens.proposed 0 1 = 0 + 1 from rfl,
      writes_succ, if_neg (by decide)]
    exact (if_pos (acceptP_mem hp _).1).trans (congrArg (fun x => [x]) hdrawn)
  have hpos := hclaim vanishing twoTokens (fun _ => 0) true 0 0 1 ⟨fun _ => 0, fun _ => 0, 0⟩ hexp
    two_pos (fun _ => ⟨le_refl 0, one_pos⟩) 0 0 (by rw [hwritten]; rfl)
  have hzero : softmax vanishing twoTokens twoTokens.target [0] 0 = 0 := by
    have hargmax : argmax (twoTokens.target.logits [0]) twoTokens.target.nVocab = 1 :=
      if_pos (show ((0 : ℕ) : ℝ) < ((1 : ℕ) : ℝ) by norm_num)
    have hvanish : max 0 (vanishing ((twoTokens.target.logits [0] 0 -
        twoTokens.target.logits [0] 1) / twoTokens.temp)) = 0 := by
      have hneg : (twoTokens.target.logits [0] 0 - twoTokens.target.logits [0] 1) /
          twoTokens.temp < 0 := by
        apply div_neg_of_neg_of_pos _ htemp
        change ((0 : ℕ) : ℝ) - ((1 : ℕ) : ℝ) < 0
        norm_num
      rw [vanishing, if_pos hneg, max_self]
    unfold softmax distFromLogits
    rw [if_neg (not_le.2 htemp), hargmax]
    dsimp only
    split
    · beta_reduce
      rw [hvanish, zero_mul]
    · exact hvanish
  exact hpos.ne' hzero

end Step

end VgEngine.Speculative
