import VgEngine.Speculative.Greedy
import VgEngine.Speculative.Law

/-! Speculative sampling: each verified position of a step writes a token of the target's
distribution, whatever the draws of the earlier positions. -/
namespace VgEngine.Speculative
open Finset UnitDraw MeasureTheory

/-- The draws of a step taken from a stream, by position in it. -/
def stream (u : ℕ → ℝ) : ℕ → ℝ × ℕ := fun k => (u k, k + 1)

section Draft

variable {K σ : Type*}

/-- The model that drafts, and the tokens fed to its graph. -/
def Config.draftModel (cfg : Config K σ) : Model K := cfg.draft.getD cfg.target

def Config.draftFed (cfg : Config K σ) (s : State σ) : ℕ → ℕ :=
  if cfg.draft.isSome then s.draft else s.target

variable {cfg : Config K σ} {hd : List ℕ} {s : State σ}

theorem decodeDraft_fed (h : Fed (cfg.draftFed s) hd) (token : ℕ) :
    (cfg.draftModel.nCtx ≤ hd.length → cfg.decodeDraft s token hd.length = none) ∧
    (hd.length < cfg.draftModel.nCtx → ∃ s', cfg.decodeDraft s token hd.length =
        some (cfg.draftModel.logits (hd ++ [token]), s') ∧ s'.rng = s.rng ∧
          Fed (cfg.draftFed s') (hd ++ [token])) := by
  unfold Config.draftFed at h
  unfold Config.decodeDraft Config.draftModel Config.draftFed Config.decodeTarget
  cases hdraft : cfg.draft with
  | none =>
    rw [hdraft] at h
    simp only [Option.isSome_none, Bool.false_eq_true, if_false, Option.getD_none] at h ⊢
    rw [h.decode]
    constructor
    · intro hctx
      rw [if_pos hctx]
      rfl
    · intro hctx
      rw [if_neg (not_le.2 hctx)]
      exact ⟨_, rfl, rfl, h.push token⟩
  | some m =>
    rw [hdraft] at h
    simp only [Option.isSome_some, if_true, Option.getD_some] at h ⊢
    rw [h.decode]
    constructor
    · intro hctx
      rw [if_pos hctx]
      rfl
    · intro hctx
      rw [if_neg (not_le.2 hctx)]
      exact ⟨_, rfl, rfl, h.push token⟩

theorem Fed.left {fed : ℕ → ℕ} {a b : List ℕ} (h : Fed fed (a ++ b)) : Fed fed a := by
  unfold Fed at h ⊢
  rw [List.length_append, List.range_add, List.map_append] at h
  exact (List.append_inj h (by simp)).1

/-- Feeding again the token that is there changes nothing. -/
theorem Fed.again {fed : ℕ → ℕ} {a b : List ℕ} {token : ℕ} (h : Fed fed (a ++ token :: b)) :
    Function.update fed a.length token = fed := by
  unfold Fed at h
  have hget := congrArg (fun l => l[a.length]?) h
  have htoken : fed a.length = token := by simpa using hget
  rw [← htoken]
  exact Function.update_eq_self _ _

/-- What the target decodes over the draft's history, where the two share a graph, is there
already. -/
theorem draftFed_decodeTarget {s : State σ} {a b : List ℕ} {token : ℕ} (rng : σ)
    (h : Fed (cfg.draftFed s) (a ++ token :: b)) :
    cfg.draftFed { s with target := Function.update s.target a.length token, rng := rng } =
      cfg.draftFed s := by
  unfold Config.draftFed at h ⊢
  cases hdraft : cfg.draft with
  | none =>
    rw [hdraft] at h
    exact h.again
  | some m => rfl

end Draft

variable {exp : ℝ → ℝ} {cfg : Config ℝ ℕ} {u u' : ℕ → ℝ}

/-- The softmax of a history under a model. -/
noncomputable def softmax (exp : ℝ → ℝ) (cfg : Config ℝ ℕ) (m : Model ℝ) (h : List ℕ) : ℕ → ℝ :=
  distFromLogits exp (m.logits h) cfg.target.nVocab cfg.temp

/-- Softmax is a distribution: the largest logit alone makes its total positive. -/
theorem softmax_isDist (hexp : 0 < exp 0) (htemp : 0 < cfg.temp) (hvocab : 0 < cfg.target.nVocab)
    (m : Model ℝ) (h : List ℕ) : IsDist (softmax exp cfg m h) cfg.target.nVocab := by
  have hmem : argmax (m.logits h) cfg.target.nVocab < cfg.target.nVocab := by
    rcases argmaxFrom_mem (m.logits h) (cfg.target.nVocab - 1) 1 0 with heq | ⟨-, hlt⟩
    · rw [argmax, heq]
      exact hvocab
    · rw [argmax]
      omega
  have hterm : ∀ i, 0 ≤ max 0 (exp ((m.logits h i -
      m.logits h (argmax (m.logits h) cfg.target.nVocab)) / cfg.temp)) := fun i => le_max_left _ _
  have htotal : 0 < ∑ i ∈ range cfg.target.nVocab, max 0 (exp ((m.logits h i -
      m.logits h (argmax (m.logits h) cfg.target.nVocab)) / cfg.temp)) := by
    refine lt_of_lt_of_le ?_ (single_le_sum (fun i _ => hterm i) (mem_range.2 hmem))
    rw [sub_self, zero_div]
    exact lt_max_of_lt_right hexp
  unfold softmax distFromLogits
  rw [if_neg (not_le.2 htemp)]
  dsimp only
  rw [if_pos htotal]
  constructor
  · intro i
    exact mul_nonneg (hterm i) (one_div_nonneg.2 htotal.le)
  · rw [← sum_mul, mul_one_div_cancel htotal.ne']

/-- The proposal after a history for a draw. -/
noncomputable def drawn (exp : ℝ → ℝ) (cfg : Config ℝ ℕ) (h : List ℕ) (r : ℝ) : ℕ :=
  (sampleFrom (fun r : ℝ => (r, r)) (softmax exp cfg cfg.draftModel h) cfg.target.nVocab r).1

theorem sampleFrom_stream (h : List ℕ) (k : ℕ) :
    sampleFrom (stream u) (distFromLogits exp (cfg.draftModel.logits h) cfg.target.nVocab cfg.temp)
      cfg.target.nVocab k = (drawn exp cfg h (u k), k + 1) := rfl

theorem sampleResidual_stream (p q : ℕ → ℝ) (n k : ℕ) :
    (sampleResidual (stream u) q p n k).1 =
      (sampleResidual (fun r : ℝ => (r, r)) q p n (u k)).1 := by
  unfold sampleResidual stream
  dsimp only
  split
  · rfl
  · split
    · rfl
    · rfl

/-- The proposals drawn one after another from the stream, from draw `k` on. -/
noncomputable def drafts (exp : ℝ → ℝ) (cfg : Config ℝ ℕ) (u : ℕ → ℝ) :
    ℕ → ℕ → List ℕ → List (ℕ × ℝ)
  | 0, _, _ => []
  | n + 1, k, g =>
    (drawn exp cfg g (u k), softmax exp cfg cfg.draftModel g (drawn exp cfg g (u k))) ::
      drafts exp cfg u n (k + 1) (g ++ [drawn exp cfg g (u k)])

/-- What verification writes over the history `h`, the draft having seen `g`. -/
noncomputable def verified (exp : ℝ → ℝ) (cfg : Config ℝ ℕ) (u : ℕ → ℝ) :
    List (ℕ × ℝ) → ℕ → ℕ → List ℕ → List ℕ → List ℕ
  | [], _, _, _, _ => []
  | _ :: _, 0, _, _, _ => []
  | (x, q) :: rest, left + 1, k, h, g =>
    if cfg.target.nCtx < h.length then []
    else if u k ≤ if 0 < q then min 1 (softmax exp cfg cfg.target h x / q) else 1 then
      x :: verified exp cfg u rest left (k + 1) (h ++ [x]) (g ++ [x])
    else
      [(sampleResidual (fun r : ℝ => (r, r)) (softmax exp cfg cfg.draftModel g)
        (softmax exp cfg cfg.target h) cfg.target.nVocab (u (k + 1))).1]

theorem drafts_length (n k : ℕ) (g : List ℕ) : (drafts exp cfg u n k g).length = n := by
  induction n generalizing k g with
  | zero => rfl
  | succ n ih => rw [drafts, List.length_cons, ih]

/-- What the draft phase leaves. -/
structure Proposed (exp : ℝ → ℝ) (cfg : Config ℝ ℕ) (u : ℕ → ℝ) (n token k : ℕ) (hd : List ℕ)
    (r : List (ℕ × ℝ) × State ℕ) : Prop where
  proposals : r.1 = drafts exp cfg u (min n (cfg.draftModel.nCtx - hd.length)) k (hd ++ [token])
  rng : r.2.rng = k + r.1.length
  fed : Fed (cfg.draftFed r.2) (hd ++ (token :: r.1.map Prod.fst).take r.1.length)

variable (exp u) in
theorem propose_spec (htemp : 0 < cfg.temp) (n token : ℕ) {hd : List ℕ} {s : State ℕ}
    (h : Fed (cfg.draftFed s) hd) : Proposed exp cfg u n token s.rng hd
      (propose (stream u) exp cfg n token hd.length s) := by
  induction n generalizing token hd s with
  | zero =>
    rw [propose]
    exact ⟨by rw [Nat.zero_min, drafts], rfl, by simpa using h⟩
  | succ n ih =>
    obtain ⟨hnone, hsome⟩ := decodeDraft_fed h token
    rw [propose]
    rcases Nat.lt_or_ge hd.length cfg.draftModel.nCtx with hctx | hctx
    · obtain ⟨s', hdecode, hrng, hfed⟩ := hsome hctx
      obtain ⟨hproposals, hrng', hfed'⟩ := ih (drawn exp cfg (hd ++ [token]) (u s.rng))
        (s := { s' with rng := s.rng + 1 }) hfed
      rw [List.length_append, List.length_singleton] at hproposals hrng' hfed'
      rw [hdecode]
      dsimp only
      rw [if_pos htemp, hrng, sampleFrom_stream]
      dsimp only at hrng' ⊢
      constructor
      · rw [show min (n + 1) (cfg.draftModel.nCtx - hd.length) =
          min n (cfg.draftModel.nCtx - (hd.length + 1)) + 1 by omega, drafts, ← hproposals]
        rfl
      · rw [List.length_cons, hrng']
        omega
      · rw [List.append_assoc, List.singleton_append] at hfed'
        exact hfed'
    · rw [hnone hctx]
      constructor
      · rw [Nat.sub_eq_zero_of_le hctx, Nat.min_zero, drafts]
      · rfl
      · simpa using h

variable (exp u) in
theorem verify_eq (htemp : 0 < cfg.temp) (props : List (ℕ × ℝ)) (left feed : ℕ) {ht hd : List ℕ}
    {s : State ℕ} (hpos : hd.length = ht.length) (htarget : Fed s.target ht)
    (hdraft : Fed (cfg.draftFed s) (hd ++ (feed :: props.map Prod.fst).take props.length))
    (hctx : props ≠ [] → hd.length + props.length ≤ cfg.draftModel.nCtx) :
    (verify (stream u) exp cfg props left feed ht.length s).1 =
      verified exp cfg u props left s.rng (ht ++ [feed]) (hd ++ [feed]) := by
  induction props generalizing left feed ht hd s with
  | nil => rw [verify, verified]
  | cons prop props ih =>
    obtain ⟨x, q⟩ := prop
    cases left with
    | zero => rw [verify, verified]
    | succ left =>
      have hctx' := hctx (List.cons_ne_nil _ _)
      rw [List.length_cons] at hctx'
      rw [List.map_cons, List.length_cons, List.take_succ_cons] at hdraft
      rw [verify, verified, Config.decodeTarget, htarget.decode, List.length_append,
        List.length_singleton]
      by_cases hfull : cfg.target.nCtx ≤ ht.length
      · rw [if_pos hfull, if_pos (Nat.lt_succ_of_le hfull)]
        rfl
      · rw [if_neg hfull, if_neg (by omega)]
        simp only [Option.map_some]
        rw [if_neg (not_le.2 htemp)]
        have hkept := draftFed_decodeTarget (s.rng + 1) hdraft
        rw [hpos] at hkept
        rw [← hkept] at hdraft
        rw [show (stream u s.rng).2 = s.rng + 1 from rfl, show (stream u s.rng).1 = u s.rng from rfl,
          show distFromLogits exp (cfg.target.logits (ht ++ [feed])) cfg.target.nVocab cfg.temp =
            softmax exp cfg cfg.target (ht ++ [feed]) from rfl]
        by_cases haccept : u s.rng ≤
            if 0 < q then min 1 (softmax exp cfg cfg.target (ht ++ [feed]) x / q) else 1
        · rw [if_pos haccept, if_pos haccept]
          have hlength : (hd ++ [feed]).length = (ht ++ [feed]).length := by simp [hpos]
          have hrest := ih left x hlength (htarget.push feed)
            (s := ⟨Function.update s.target ht.length feed, s.draft, s.rng + 1⟩)
            (by simpa using hdraft)
            (by intro _; rw [List.length_append, List.length_singleton]; omega)
          rw [List.length_append, List.length_singleton] at hrest
          rw [hrest]
        · rw [if_neg haccept, if_neg haccept]
          obtain ⟨s', hdecode, hrng, -⟩ := (decodeDraft_fed hdraft.left feed).2 (by omega)
          rw [hpos] at hdecode
          rw [hdecode]
          dsimp only
          rw [sampleResidual_stream, hrng]
          rfl

/-- What a step writes with `n` proposals drawn from draw `k` on and verified from draw `m`. -/
noncomputable def writes (exp : ℝ → ℝ) (cfg : Config ℝ ℕ) (u : ℕ → ℝ) (n left k m : ℕ)
    (h g : List ℕ) : List ℕ := verified exp cfg u (drafts exp cfg u n k g) left m h g

theorem writes_succ (n left k m : ℕ) (h g : List ℕ) :
    writes exp cfg u (n + 1) (left + 1) k m h g =
      if cfg.target.nCtx < h.length then []
      else if u m ≤ acceptP (softmax exp cfg cfg.target h) (softmax exp cfg cfg.draftModel g)
          (drawn exp cfg g (u k)) then
        drawn exp cfg g (u k) :: writes exp cfg u n left (k + 1) (m + 1)
          (h ++ [drawn exp cfg g (u k)]) (g ++ [drawn exp cfg g (u k)])
      else
        [(sampleResidual (fun r : ℝ => (r, r)) (softmax exp cfg cfg.draftModel g)
          (softmax exp cfg cfg.target h) cfg.target.nVocab (u (m + 1))).1] := by
  rw [writes, drafts, verified]
  rfl

theorem writes_length (n left k m : ℕ) (h g : List ℕ) :
    (writes exp cfg u n left k m h g).length ≤ n := by
  induction n generalizing left k m h g with
  | zero => exact Nat.le_refl 0
  | succ n ih =>
    cases left with
    | zero => exact Nat.zero_le _
    | succ left =>
      rw [writes_succ]
      split
      · exact Nat.zero_le _
      · split
        · exact Nat.succ_le_succ (ih _ _ _ _ _)
        · exact Nat.succ_le_succ (Nat.zero_le n)

/-- The stream with the three draws of one position drawn anew. -/
def redraw (u : ℕ → ℝ) (a b : ℕ) (t : ℝ × ℝ × ℝ) : ℕ → ℝ :=
  Function.update (Function.update (Function.update u a t.1) b t.2.1) (b + 1) t.2.2

theorem redraw_of_ne {a b j : ℕ} (t : ℝ × ℝ × ℝ) (ha : j ≠ a) (hb : j ≠ b) (hb' : j ≠ b + 1) :
    redraw u a b t j = u j := by
  unfold redraw
  rw [Function.update_of_ne hb', Function.update_of_ne hb, Function.update_of_ne ha]

theorem redraw_draft {a b : ℕ} (t : ℝ × ℝ × ℝ) (hab : a < b) : redraw u a b t a = t.1 := by
  unfold redraw
  rw [Function.update_of_ne (by omega), Function.update_of_ne (by omega), Function.update_self]

theorem redraw_accept (a b : ℕ) (t : ℝ × ℝ × ℝ) : redraw u a b t b = t.2.1 := by
  unfold redraw
  rw [Function.update_of_ne (by omega), Function.update_self]

theorem redraw_residual (a b : ℕ) (t : ℝ × ℝ × ℝ) : redraw u a b t (b + 1) = t.2.2 := by
  unfold redraw
  rw [Function.update_self]

/-- The draws of a position written leave the earlier ones as they are, and decide its token
as rejection sampling does. -/
theorem writes_redraw {i n left k m : ℕ} {h g : List ℕ} (hm : k + n ≤ m)
    (hi : i < (writes exp cfg u n left k m h g).length) (t : ℝ × ℝ × ℝ) :
    (writes exp cfg (redraw u (k + i) (m + i) t) n left k m h g).take i =
        (writes exp cfg u n left k m h g).take i ∧
      (writes exp cfg (redraw u (k + i) (m + i) t) n left k m h g)[i]? =
        some (outcome
          (softmax exp cfg cfg.target (h ++ (writes exp cfg u n left k m h g).take i))
          (softmax exp cfg cfg.draftModel (g ++ (writes exp cfg u n left k m h g).take i))
          cfg.target.nVocab t) := by
  induction i generalizing n left k m h g with
  | zero =>
    cases n with
    | zero => cases hi
    | succ n =>
      cases left with
      | zero => cases hi
      | succ left =>
        rw [writes_succ] at hi
        have hctx : ¬ cfg.target.nCtx < h.length := by
          intro hctx
          rw [if_pos hctx] at hi
          cases hi
        refine ⟨rfl, ?_⟩
        rw [List.take_zero, List.append_nil, List.append_nil, Nat.add_zero, Nat.add_zero,
          writes_succ, if_neg hctx, redraw_draft t (by omega), redraw_accept, redraw_residual]
        unfold outcome
        split
        · rename_i haccept
          rw [List.getElem?_cons_zero]
          exact congrArg some (if_pos haccept).symm
        · rename_i hreject
          rw [List.getElem?_cons_zero]
          exact congrArg some (if_neg hreject).symm
  | succ i ih =>
    cases n with
    | zero => cases hi
    | succ n =>
      cases left with
      | zero => cases hi
      | succ left =>
        have hlen := Nat.lt_of_lt_of_le hi (writes_length _ _ _ _ _ _)
        rw [show k + (i + 1) = k + 1 + i by omega, show m + (i + 1) = m + 1 + i by omega]
        have hdraft : redraw u (k + 1 + i) (m + 1 + i) t k = u k :=
          redraw_of_ne t (by omega) (by omega) (by omega)
        have haccept : redraw u (k + 1 + i) (m + 1 + i) t m = u m :=
          redraw_of_ne t (by omega) (by omega) (by omega)
        rw [writes_succ] at hi
        rw [writes_succ, writes_succ, hdraft, haccept]
        split at hi
        · cases hi
        · rename_i hctx
          rw [if_neg hctx, if_neg hctx]
          split at hi
          · rename_i htake
            rw [if_pos htake, if_pos htake]
            obtain ⟨hsame, htoken⟩ := ih (by omega) (Nat.lt_of_succ_lt_succ hi)
            rw [List.take_succ_cons, List.take_succ_cons, hsame, List.getElem?_cons_succ, htoken,
              List.append_assoc, List.append_assoc, List.singleton_append]
            exact ⟨rfl, rfl⟩
          · exact absurd (Nat.lt_of_succ_lt_succ hi) (Nat.not_lt_zero i)

/-- The proposals a step makes at a position: the draft must be able to decode there. -/
def Config.proposed (cfg : Config ℝ ℕ) (kvPos maxAccepted : ℕ) : ℕ :=
  min (cfg.proposals maxAccepted) (cfg.draftModel.nCtx - kvPos)

/-- A step over its stream of draws, as the histories of the two graphs give it. -/
theorem speculativeStep_eq (htemp : 0 < cfg.temp) (allocated : Bool) (inputToken kvPos maxAccepted : ℕ)
    (s : State ℕ) :
    (speculativeStep (stream u) exp cfg allocated inputToken kvPos maxAccepted s).1 =
      if maxAccepted = 0 ∨ cfg.draftVocab ≠ cfg.target.nVocab ∨ allocated = false then []
      else
        writes exp cfg u (cfg.proposed kvPos maxAccepted) maxAccepted (cfg.localRng.getD s.rng)
          (cfg.localRng.getD s.rng + cfg.proposed kvPos maxAccepted)
          ((List.range kvPos).map s.target ++ [inputToken])
          ((List.range kvPos).map (cfg.draftFed s) ++ [inputToken]) := by
  unfold speculativeStep
  split
  · rfl
  · have hlen : ∀ fed : ℕ → ℕ, ((List.range kvPos).map fed).length = kvPos := by
      intro fed
      rw [List.length_map, List.length_range]
    have hpropose := propose_spec exp u htemp (cfg.proposals maxAccepted) inputToken
      (s := { s with rng := cfg.localRng.getD s.rng }) (fed_range (cfg.draftFed s) kvPos)
    have htarget := propose_target (stream u) exp cfg (cfg.proposals maxAccepted) inputToken
      kvPos (s := { s with rng := cfg.localRng.getD s.rng }) (fed_range s.target kvPos)
      (hlen s.target).le
    rw [hlen] at hpropose
    obtain ⟨hproposals, hrng, hfed⟩ := hpropose
    rw [hlen] at hproposals
    dsimp only
    generalize propose (stream u) exp cfg (cfg.proposals maxAccepted) inputToken kvPos
      { s with rng := cfg.localRng.getD s.rng } = r at hproposals hrng hfed htarget ⊢
    have hcount : r.1.length = cfg.proposed kvPos maxAccepted := by
      rw [hproposals, drafts_length]
      rfl
    have hverify := verify_eq exp u htemp r.1 maxAccepted inputToken
      (by rw [hlen, hlen]) htarget hfed (by
        intro hne
        have hpos := List.length_pos_of_ne_nil hne
        unfold Config.proposed at hcount
        rw [hlen]
        omega)
    rw [hlen, hrng, hcount, hproposals] at hverify
    rw [hproposals, hverify]
    rfl

variable (exp) in
/-- Rejection sampling turns a proposal of any draft distribution into a token of any target
distribution, and the token that a step writes at a position is drawn so: whatever was
written before it, its three draws leave that as it is and give the token the target's
distribution over the history. -/
theorem written_law (hexp : 0 < exp 0) (htemp : 0 < cfg.temperature) (allocated : Bool)
    (inputToken kvPos maxAccepted : ℕ) (s : State ℕ) :
    (∀ (n : ℕ) (p q : ℕ → ℝ), IsDist p n → IsDist q n → ∀ x < n,
      (unitDraw.prod (unitDraw.prod unitDraw)).real {t | outcome p q n t = x} = p x) ∧
    ∀ (u : ℕ → ℝ) (i : ℕ),
      i < (speculativeStep (stream u) exp cfg allocated inputToken kvPos maxAccepted s).1.length →
      let k := cfg.localRng.getD s.rng
      let before := (speculativeStep (stream u) exp cfg allocated inputToken kvPos maxAccepted s).1.take i
      let p := softmax exp cfg cfg.target ((List.range kvPos).map s.target ++ inputToken :: before)
      let q := softmax exp cfg cfg.draftModel
        ((List.range kvPos).map (cfg.draftFed s) ++ inputToken :: before)
      let again := fun t => (speculativeStep
        (stream (redraw u (k + i) (k + cfg.proposed kvPos maxAccepted + i) t)) exp cfg allocated
        inputToken kvPos maxAccepted s).1
      (∀ t, (again t).take i = before ∧ (again t)[i]? = some (outcome p q cfg.target.nVocab t)) ∧
        ∀ x < cfg.target.nVocab,
          (unitDraw.prod (unitDraw.prod unitDraw)).real {t | (again t)[i]? = some x} = p x := by
  have htemp' : 0 < cfg.temp := lt_max_of_lt_right htemp
  refine ⟨fun n p q hp hq x hx => outcome_law hp hq hx, ?_⟩
  intro u i hi
  simp only [speculativeStep_eq htemp'] at hi ⊢
  split at hi
  · cases hi
  · rename_i hrun
    simp only [if_neg hrun]
    have hredraw := fun t => writes_redraw (Nat.le_refl _) hi t
    simp only [List.append_assoc, List.singleton_append] at hredraw
    refine ⟨hredraw, ?_⟩
    intro x hx
    have hvocab : 0 < cfg.target.nVocab := Nat.lt_of_le_of_lt (Nat.zero_le x) hx
    simp only [(hredraw _).2, Option.some_inj]
    apply outcome_law
    · exact softmax_isDist hexp htemp' hvocab _ _
    · exact softmax_isDist hexp htemp' hvocab _ _
    · exact hx

/-- Two tokens of even chances, drafted by the target itself. -/
noncomputable def evenConfig : Config ℝ ℕ where
  target := ⟨16, 2, fun _ _ => 0⟩
  draft := none
  nDraft := 1
  temperature := 1
  localRng := some 5

theorem written_law_even :
    (unitDraw.prod (unitDraw.prod unitDraw)).real {t | (speculativeStep
      (stream (redraw (fun _ => 0) 5 6 t)) (fun _ => 1) evenConfig true 0 0 1
        ⟨fun _ => 0, fun _ => 0, 0⟩).1[0]? = some 1} =
      softmax (fun _ => 1) evenConfig evenConfig.target [0] 1 := by
  have hwrites : 0 < (speculativeStep (stream fun _ => 0) (fun _ => 1) evenConfig true 0 0 1
      ⟨fun _ => 0, fun _ => 0, 0⟩).1.length := by
    rw [speculativeStep_eq (lt_max_of_lt_right one_pos), if_neg (by decide)]
    rw [show evenConfig.proposed 0 1 = 0 + 1 from rfl, writes_succ, if_neg (by decide)]
    split
    · exact Nat.succ_pos _
    · exact Nat.succ_pos _
  have htemp : 0 < evenConfig.temperature := one_pos
  have hlaw := written_law (fun _ => 1) one_pos htemp true 0 0 1 ⟨fun _ => 0, fun _ => 0, 0⟩
  exact (hlaw.2 _ 0 hwrites).2 1 Nat.one_lt_two

end VgEngine.Speculative
