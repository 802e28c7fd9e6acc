import VgEngine.Speculative.Step
import Mathlib.Algebra.Field.Rat
import Mathlib.Algebra.Order.Ring.Rat

/-! At temperature zero a chain of speculative steps writes what the target model decodes
alone, whatever the draft proposes. -/
namespace VgEngine.Speculative

variable {K σ : Type*} {fed : Nat → Nat} {hist : List Nat}

/-- The tokens fed at the positions below `hist.length`. -/
def Fed (fed : Nat → Nat) (hist : List Nat) : Prop := (List.range hist.length).map fed = hist

/-- The greedy continuation of a history. Its last token is the one to feed. -/
def greedy [LinearOrder K] (m : Model K) : Nat → List Nat → List Nat
  | 0, _ => []
  | n + 1, h =>
    if m.nCtx < h.length then []
    else
      argmax (m.logits h) m.nVocab :: greedy m n (h ++ [argmax (m.logits h) m.nVocab])

theorem fed_range (fed : Nat → Nat) (pos : Nat) : Fed fed ((List.range pos).map fed) := by
  unfold Fed
  rw [List.length_map, List.length_range]

theorem Fed.congr {fed' : Nat → Nat} (h : Fed fed hist)
    (heq : ∀ i < hist.length, fed' i = fed i) : Fed fed' hist := by
  unfold Fed at h ⊢
  conv_rhs => rw [← h]
  apply List.map_congr_left
  intro i hi
  exact heq i (List.mem_range.1 hi)

theorem Fed.update (h : Fed fed hist) {pos : Nat} (hpos : hist.length ≤ pos) (token : Nat) :
    Fed (Function.update fed pos token) hist := by
  apply h.congr
  intro i hi
  exact Function.update_of_ne (by omega) _ _

theorem Fed.push (h : Fed fed hist) (token : Nat) :
    Fed (Function.update fed hist.length token) (hist ++ [token]) := by
  have hkept := h.update (Nat.le_refl _) token
  unfold Fed at hkept ⊢
  rw [List.length_append, List.length_singleton, List.range_succ, List.map_append, hkept,
    List.map_singleton, Function.update_self]

/-- Decoding after a history sees the history and the token fed. -/
theorem Fed.decode (h : Fed fed hist) (m : Model K) (token : Nat) :
    m.decode fed token hist.length =
      if m.nCtx ≤ hist.length then none
      else some (m.logits (hist ++ [token]), Function.update fed hist.length token) := by
  have hpush := h.push token
  unfold Fed at hpush
  rw [List.length_append, List.length_singleton] at hpush
  rw [Model.decode]
  dsimp only
  rw [hpush]

/-- The code's loop over a graph computes the greedy continuation. -/
theorem greedyDecode_eq [LinearOrder K] (m : Model K) (n token : Nat) (h : Fed fed hist) :
    greedyDecode m n token hist.length fed = greedy m n (hist ++ [token]) := by
  induction n generalizing token fed hist with
  | zero => rfl
  | succ n ih =>
    rw [greedyDecode, greedy, h.decode, List.length_append, List.length_singleton]
    by_cases hctx : m.nCtx ≤ hist.length
    · rw [if_pos hctx, if_pos (Nat.lt_succ_of_le hctx)]
    · rw [if_neg hctx, if_neg (by omega)]
      dsimp only
      have hrest := ih (argmax (m.logits (hist ++ [token])) m.nVocab) (h.push token)
      rw [List.length_append, List.length_singleton] at hrest
      rw [hrest]

/-- Continuations follow one another. -/
theorem greedy_append [LinearOrder K] {m : Model K} {ws more h : List Nat} (hws : ws = greedy m ws.length h)
    (hmore : more = greedy m more.length (h ++ ws)) :
    ws ++ more = greedy m (ws ++ more).length h := by
  induction ws generalizing h with
  | nil => simpa using hmore
  | cons w ws ih =>
    rw [List.length_cons, greedy] at hws
    split at hws
    · cases hws
    · rename_i hctx
      obtain ⟨hw, hrest⟩ := List.cons.inj hws
      rw [List.cons_append, List.length_cons, greedy, if_neg hctx, ← hw]
      rw [← hw] at hrest
      rw [← ih hrest]
      rw [List.append_assoc]
      exact hmore

theorem decodeDraft_isSome {cfg : Config K σ} {pos : Nat} (hctx : pos < (cfg.draft.getD cfg.target).nCtx)
    (s : State σ) (token : Nat) : (cfg.decodeDraft s token pos).isSome := by
  unfold Config.decodeDraft Config.decodeTarget Model.decode
  cases hdraft : cfg.draft with
  | none =>
    rw [hdraft, Option.getD_none] at hctx
    dsimp only
    rw [if_neg (not_le.2 hctx)]
    rfl
  | some m =>
    rw [hdraft, Option.getD_some] at hctx
    dsimp only
    rw [if_neg (not_le.2 hctx)]
    rfl

theorem proposals_pos (cfg : Config K σ) {maxAccepted : Nat} (hmax : 0 < maxAccepted) :
    0 < cfg.proposals maxAccepted := by
  unfold Config.proposals
  have hdrafts : 0 < if cfg.nDraft ≤ 0 then 4 else cfg.nDraft.toNat := by
    split <;> omega
  omega

section Argmax

variable [LinearOrder K]

theorem argmaxFrom_mem (p : Nat → K) (n i best : Nat) :
    argmaxFrom p n i best = best ∨ i ≤ argmaxFrom p n i best ∧ argmaxFrom p n i best < i + n := by
  induction n generalizing i best with
  | zero => exact Or.inl rfl
  | succ n ih =>
    rw [argmaxFrom]
    rcases ih (i + 1) (if p best < p i then i else best) with heq | ⟨hlo, hhi⟩
    · rw [heq]
      split
      · exact Or.inr ⟨Nat.le_refl i, by omega⟩
      · exact Or.inl rfl
    · exact Or.inr ⟨by omega, by omega⟩

/-- A first largest entry from position `lo` on, of those there and one before them. -/
structure IsFirstMax (p : Nat → K) (lo hi best b : Nat) : Prop where
  best_le : p best ≤ p b
  le : ∀ j, lo ≤ j → j < hi → p j ≤ p b
  of_ne : b ≠ best → p best < p b
  first : ∀ j, lo ≤ j → j < b → b ≠ best → p j < p b

theorem argmaxFrom_spec (p : Nat → K) (n i best : Nat) :
    IsFirstMax p i (i + n) best (argmaxFrom p n i best) := by
  induction n generalizing i best with
  | zero =>
    rw [argmaxFrom]
    constructor
    case best_le => exact le_refl _
    case le => exact fun j hlo hhi => by omega
    case of_ne => exact fun hne => absurd rfl hne
    case first => exact fun j _ _ hne => absurd rfl hne
  | succ n ih =>
    rw [argmaxFrom]
    have hrest := ih (i + 1) (if p best < p i then i else best)
    generalize argmaxFrom p n (i + 1) (if p best < p i then i else best) = b at hrest ⊢
    have hle : p best ≤ (p (if p best < p i then i else best)) ∧
        p i ≤ (p (if p best < p i then i else best)) := by
      split
      · rename_i hlt
        exact ⟨hlt.le, le_refl _⟩
      · rename_i hge
        exact ⟨le_refl _, not_lt.1 hge⟩
    constructor
    case best_le => exact hle.1.trans hrest.best_le
    case le =>
      intro j hlo hhi
      rcases Nat.eq_or_lt_of_le hlo with rfl | hlt
      · exact hle.2.trans hrest.best_le
      · exact hrest.le j hlt (by omega)
    case of_ne =>
      intro hne
      by_cases hb : b = if p best < p i then i else best
      · rw [hb] at hne ⊢
        split at hne
        · rename_i hlt
          rwa [if_pos hlt]
        · exact absurd rfl hne
      · exact hle.1.trans_lt (hrest.of_ne hb)
    case first =>
      intro j hlo hlt hne
      by_cases hb : b = if p best < p i then i else best
      · rw [hb] at hne hlt
        split at hne
        · rename_i hbest
          rw [if_pos hbest] at hlt
          omega
        · exact absurd rfl hne
      · rcases Nat.eq_or_lt_of_le hlo with rfl | hij
        · exact hle.2.trans_lt (hrest.of_ne hb)
        · exact hrest.first j hij hlt hb

theorem argmax_lt (p : Nat → K) {n : Nat} (hn : 0 < n) : argmax p n < n := by
  rcases argmaxFrom_mem p (n - 1) 1 0 with h | ⟨-, h⟩
  · rw [argmax, h]
    exact hn
  · rw [argmax]
    omega

theorem le_argmax (p : Nat → K) {n j : Nat} (hj : j < n) : p j ≤ p (argmax p n) := by
  have hspec := argmaxFrom_spec p (n - 1) 1 0
  rcases Nat.eq_zero_or_pos j with rfl | hpos
  · exact hspec.best_le
  · exact hspec.le j hpos (by omega)

theorem lt_argmax (p : Nat → K) {n j : Nat} (hj : j < argmax p n) : p j < p (argmax p n) := by
  have hspec := argmaxFrom_spec p (n - 1) 1 0
  have hne : argmaxFrom p (n - 1) 1 0 ≠ 0 := by
    rw [argmax] at hj
    omega
  rcases Nat.eq_zero_or_pos j with rfl | hpos
  · exact hspec.of_ne hne
  · exact hspec.first j hpos hj hne
variable [Field K]

def oneHot (b : Nat) : Nat → K := fun i => if i = b then 1 else 0

theorem distFromLogits_zero (logits : Nat → K) (nVocab : Nat) {exp : K → K}
    {temperature : K}
    (htemp : temperature ≤ 0) :
    distFromLogits exp logits nVocab temperature = oneHot (argmax logits nVocab) := by
  unfold distFromLogits
  rw [if_pos htemp]
  rfl

variable [IsStrictOrderedRing K]

/-- The scan of a one-hot distribution stops at its one entry. -/
theorem argmaxFrom_oneHot {b n i best : Nat} (h : b = best ∨ i ≤ b ∧ b < i + n) :
    argmaxFrom (oneHot b : Nat → K) n i best = b := by
  induction n generalizing i best with
  | zero =>
    rcases h with h | h
    · exact h.symm
    · omega
  | succ n ih =>
    rw [argmaxFrom]
    apply ih
    by_cases hbest : b = best
    · left
      have hle : ¬ (oneHot b best : K) < oneHot b i := by
        unfold oneHot
        rw [if_pos hbest.symm]
        split
        · exact lt_irrefl _
        · exact not_lt.2 zero_le_one
      rw [if_neg hle]
      exact hbest
    · have hrange := h.resolve_left hbest
      have hzero : (oneHot b best : K) = 0 := if_neg (Ne.symm hbest)
      by_cases hi : i = b
      · left
        have hone : (oneHot b i : K) = 1 := if_pos hi
        rw [if_pos (by rw [hzero, hone]; exact zero_lt_one)]
        exact hi.symm
      · right
        omega

theorem argmax_oneHot (p : Nat → K) (nVocab : Nat) :
    argmax (oneHot (argmax p nVocab) : Nat → K) nVocab = argmax p nVocab := by
  apply argmaxFrom_oneHot
  rcases argmaxFrom_mem p (nVocab - 1) 1 0 with h | h
  · exact Or.inl h
  · exact Or.inr h

end Argmax

variable [Field K] [LinearOrder K] (rand : σ → K × σ) (exp : K → K) {cfg : Config K σ}

variable (cfg) in
/-- Drafting feeds nothing below the position it starts at. -/
theorem propose_target (n token pos : Nat) {s : State σ} (h : Fed s.target hist)
    (hpos : hist.length ≤ pos) : Fed (propose rand exp cfg n token pos s).2.target hist := by
  induction n generalizing token pos s with
  | zero => exact h
  | succ n ih =>
    rw [propose]
    cases hdecode : cfg.decodeDraft s token pos with
    | none => exact h
    | some r =>
      obtain ⟨logits, s'⟩ := r
      have hkept : Fed s'.target hist := by
        unfold Config.decodeDraft Config.decodeTarget Model.decode at hdecode
        split at hdecode
        · split at hdecode
          · cases hdecode
          · cases hdecode
            exact h.update hpos token
        · split at hdecode
          · cases hdecode
          · cases hdecode
            exact h
      exact ih _ _ hkept (by omega)

variable [IsStrictOrderedRing K]

/-- Greedy verification writes the continuation of the target, and has fed it. -/
theorem verify_greedy (htemp : cfg.temp ≤ 0) (props : List (Nat × K)) (left feed : Nat)
    {s : State σ} (h : Fed s.target hist) :
    (verify rand exp cfg props left feed hist.length s).1 =
        greedy cfg.target (verify rand exp cfg props left feed hist.length s).1.length
          (hist ++ [feed]) ∧
      Fed (verify rand exp cfg props left feed hist.length s).2.target
        (hist ++ (feed :: (verify rand exp cfg props left feed hist.length s).1).dropLast) := by
  induction props generalizing left feed hist s with
  | nil =>
    rw [verify]
    exact ⟨rfl, by simpa using h⟩
  | cons prop props ih =>
    obtain ⟨x, q⟩ := prop
    cases left with
    | zero =>
      rw [verify]
      exact ⟨rfl, by simpa using h⟩
    | succ left =>
      rw [verify, Config.decodeTarget, h.decode]
      by_cases hctx : cfg.target.nCtx ≤ hist.length
      · rw [if_pos hctx]
        exact ⟨rfl, by simpa using h⟩
      · rw [if_neg hctx]
        simp only [Option.map_some, if_pos htemp, distFromLogits_zero _ _ htemp, argmax_oneHot]
        have hpush := h.push feed
        have hlen : ¬ cfg.target.nCtx < (hist ++ [feed]).length := by
          rw [List.length_append, List.length_singleton]
          omega
        split
        · have hrest := ih left (argmax (cfg.target.logits (hist ++ [feed])) cfg.target.nVocab)
            (s := { s with target := Function.update s.target hist.length feed }) hpush
          rw [List.length_append, List.length_singleton] at hrest
          refine ⟨?_, ?_⟩
          · dsimp only
            rw [List.length_cons, greedy, if_neg hlen, ← hrest.1]
          · dsimp only
            rw [List.dropLast_cons_cons]
            have hfed := hrest.2
            rwa [List.append_assoc, List.singleton_append] at hfed
        · refine ⟨?_, by simpa using hpush⟩
          rw [List.length_singleton, greedy, if_neg hlen, greedy]

/-- A step writes the continuation of the target, and has fed it. -/
theorem speculativeStep_greedy (htemp : cfg.temp ≤ 0) (allocated : Bool) (token maxAccepted : Nat)
    {s : State σ} (h : Fed s.target hist) :
    (speculativeStep rand exp cfg allocated token hist.length maxAccepted s).1 =
        greedy cfg.target
          (speculativeStep rand exp cfg allocated token hist.length maxAccepted s).1.length
          (hist ++ [token]) ∧
      Fed (speculativeStep rand exp cfg allocated token hist.length maxAccepted s).2.target
        (hist ++ (token ::
          (speculativeStep rand exp cfg allocated token hist.length maxAccepted s).1).dropLast) := by
  unfold speculativeStep
  split
  · exact ⟨rfl, by simpa using h⟩
  · have hdraft := propose_target rand exp cfg (cfg.proposals maxAccepted) token hist.length
      (s := { s with rng := cfg.localRng.getD s.rng }) h (Nat.le_refl _)
    exact verify_greedy rand exp htemp _ maxAccepted token hdraft

theorem chain_greedy (htemp : cfg.temp ≤ 0) (maxAccepted : Nat) (calls : List Bool) (token : Nat)
    {s : State σ} (h : Fed s.target hist) :
    (chain rand exp cfg maxAccepted calls token hist.length s).1 =
      greedy cfg.target (chain rand exp cfg maxAccepted calls token hist.length s).1.length
        (hist ++ [token]) := by
  induction calls generalizing token hist s with
  | nil => rfl
  | cons allocated calls ih =>
    obtain ⟨hwritten, hfed⟩ := speculativeStep_greedy rand exp htemp allocated token
      maxAccepted h
    rw [chain]
    generalize speculativeStep rand exp cfg allocated token hist.length maxAccepted s = step
      at hwritten hfed ⊢
    obtain ⟨ws, s'⟩ := step
    dsimp only at hwritten hfed ⊢
    cases hlast : ws.getLast? with
    | none => rfl
    | some last =>
      have hne : ws ≠ [] := by
        intro hnil
        rw [hnil] at hlast
        cases hlast
      have hlast' : ws.getLast hne = last := by
        rw [List.getLast?_eq_some_getLast hne] at hlast
        exact Option.some.inj hlast
      have hlen : (hist ++ (token :: ws).dropLast).length = hist.length + ws.length := by
        simp
      have hnext : hist ++ (token :: ws).dropLast ++ [last] = hist ++ [token] ++ ws := by
        have hcut := List.dropLast_append_getLast (List.cons_ne_nil token ws)
        rw [List.getLast_cons hne, hlast'] at hcut
        rw [List.append_assoc, hcut, List.append_assoc, List.singleton_append]
      have hmore := ih last hfed
      rw [hlen, hnext] at hmore
      exact greedy_append hwritten hmore

omit [IsStrictOrderedRing K] in
/-- Where the draft can decode, it makes a proposal. -/
theorem propose_cons {pos : Nat} (hctx : pos < (cfg.draft.getD cfg.target).nCtx) (n token : Nat)
    (s : State σ) :
    ∃ prop props s', propose rand exp cfg (n + 1) token pos s = (prop :: props, s') := by
  obtain ⟨⟨logits, s1⟩, hdecode⟩ := Option.isSome_iff_exists.1 (decodeDraft_isSome hctx s token)
  rw [propose, hdecode]
  exact ⟨_, _, _, rfl⟩

omit [IsStrictOrderedRing K] in
/-- Where both graphs can decode, a step writes at least one token. -/
theorem speculativeStep_writes (htemp : cfg.temp ≤ 0) {maxAccepted : Nat} (hmax : 0 < maxAccepted)
    (hvocab : cfg.draftVocab = cfg.target.nVocab) (pos : Nat) (htarget : pos < cfg.target.nCtx)
    (hdraft : pos < (cfg.draft.getD cfg.target).nCtx) (token : Nat) (s : State σ) :
    (speculativeStep rand exp cfg true token pos maxAccepted s).1 ≠ [] := by
  obtain ⟨n, hn⟩ := Nat.exists_eq_add_one_of_ne_zero (proposals_pos cfg hmax).ne'
  obtain ⟨left, hleft⟩ := Nat.exists_eq_add_one_of_ne_zero hmax.ne'
  obtain ⟨⟨x, q⟩, props, s1, hpropose⟩ := propose_cons rand exp hdraft n token
    { s with rng := cfg.localRng.getD s.rng }
  unfold speculativeStep
  rw [if_neg (by simp [hmax.ne', hvocab]), hn, hleft]
  dsimp only
  rw [hpropose]
  dsimp only
  rw [verify, Config.decodeTarget, Model.decode, if_neg (not_le.2 htarget)]
  simp only [Option.map_some, if_pos htemp]
  split <;> exact List.cons_ne_nil _ _

omit [IsStrictOrderedRing K] in
theorem chain_writes (htemp : cfg.temp ≤ 0) {maxAccepted : Nat} (hmax : 0 < maxAccepted)
    (hvocab : cfg.draftVocab = cfg.target.nVocab) {calls : List Bool}
    (hcalls : ∀ allocated ∈ calls, allocated = true) {pos token : Nat} {s : State σ}
    (hctx : pos + (chain rand exp cfg maxAccepted calls token pos s).1.length <
      min cfg.target.nCtx (cfg.draft.getD cfg.target).nCtx) :
    calls.length ≤ (chain rand exp cfg maxAccepted calls token pos s).1.length := by
  induction calls generalizing pos token s with
  | nil => exact Nat.zero_le _
  | cons allocated calls ih =>
    obtain rfl := hcalls allocated List.mem_cons_self
    have hwrites := speculativeStep_writes rand exp htemp hmax hvocab pos
      (by omega) (by omega) token s
    rw [chain] at hctx ⊢
    generalize speculativeStep rand exp cfg true token pos maxAccepted s = step at hwrites hctx ⊢
    obtain ⟨ws, s'⟩ := step
    dsimp only at hwrites hctx ⊢
    rw [List.getLast?_eq_some_getLast hwrites] at hctx ⊢
    dsimp only at hctx ⊢
    have hpos := List.length_pos_of_ne_nil hwrites
    rw [List.length_append] at hctx ⊢
    have hrest : calls.length ≤
        (chain rand exp cfg maxAccepted calls (ws.getLast hwrites) (pos + ws.length) s').1.length :=
      ih (fun c hc => hcalls c (List.mem_cons_of_mem _ hc)) (by omega)
    rw [List.length_cons]
    omega

/-- At temperature zero, whatever the draft model and the numbers of proposals, the tokens
written by a chain of steps are those the target model decodes alone; and while both graphs
can decode, every step writes at least one. -/
theorem chain_eq_greedyDecode (htemp : cfg.temperature ≤ 0) (maxAccepted : Nat)
    (calls : List Bool) (token pos : Nat) (s : State σ) (hfed : ∀ i < pos, fed i = s.target i) :
    (chain rand exp cfg maxAccepted calls token pos s).1 =
        greedyDecode cfg.target (chain rand exp cfg maxAccepted calls token pos s).1.length token
          pos fed ∧
      (0 < maxAccepted → cfg.draftVocab = cfg.target.nVocab →
        (∀ allocated ∈ calls, allocated = true) →
        pos + (chain rand exp cfg maxAccepted calls token pos s).1.length <
          min cfg.target.nCtx (cfg.draft.getD cfg.target).nCtx →
        calls.length ≤ (chain rand exp cfg maxAccepted calls token pos s).1.length) := by
  have htemp' : cfg.temp ≤ 0 := max_le (le_refl 0) htemp
  refine ⟨?_, fun hmax hvocab hcalls hctx => chain_writes rand exp htemp' hmax hvocab hcalls hctx⟩
  have hstart := fed_range s.target pos
  have hsame : Fed fed ((List.range pos).map s.target) := by
    apply hstart.congr
    intro i hi
    rw [List.length_map, List.length_range] at hi
    exact hfed i hi
  have hchain := chain_greedy rand exp htemp' maxAccepted calls token hstart
  have hgreedy := greedyDecode_eq cfg.target
    (chain rand exp cfg maxAccepted calls token pos s).1.length token hsame
  rw [List.length_map, List.length_range] at hchain hgreedy
  rw [hgreedy]
  exact hchain

/-- A target that counts modulo three, with a draft that always proposes zero. -/
def countingConfig : Config ℚ Unit where
  target := ⟨16, 3, fun h i => if i = (h.getLastD 0 + 1) % 3 then 1 else 0⟩
  draft := some ⟨16, 3, fun _ _ => 0⟩
  nDraft := 2
  temperature := 0
  localRng := none

theorem chain_eq_greedyDecode_counting :
    (chain (fun s => (0, s)) id countingConfig 3 [true, true] 1 0 ⟨fun _ => 0, fun _ => 0, ()⟩).1 =
        greedyDecode countingConfig.target
          (chain (fun s => (0, s)) id countingConfig 3 [true, true] 1 0
            ⟨fun _ => 0, fun _ => 0, ()⟩).1.length 1 0 (fun _ => 7) ∧
      (0 < 3 → countingConfig.draftVocab = countingConfig.target.nVocab →
        (∀ allocated ∈ [true, true], allocated = true) →
        0 + (chain (fun s => (0, s)) id countingConfig 3 [true, true] 1 0
          ⟨fun _ => 0, fun _ => 0, ()⟩).1.length <
          min countingConfig.target.nCtx (countingConfig.draft.getD countingConfig.target).nCtx →
        [true, true].length ≤ (chain (fun s => (0, s)) id countingConfig 3 [true, true] 1 0
          ⟨fun _ => 0, fun _ => 0, ()⟩).1.length) :=
  chain_eq_greedyDecode (fun s => (0, s)) id (le_refl 0) 3 [true, true] 1 0 _
    fun i hi => absurd hi (Nat.not_lt_zero i)

end VgEngine.Speculative
