import VgEngine.Generate.Prefill

/-! The generation loop of `vg_generate`: a token is sampled from the logits of the last decode, its
text is handed to the callback, and the token is decoded. -/
namespace VgEngine.Generate
open Bytes Gguf Model Tokenizer

/-- The buffer of logits: its values, and the position of the decode that wrote them. Until one has,
it holds what the heap left there. -/
structure Logits (K : Type*) where
  val : Nat → K
  pos : Option Nat

/-- A sampled token: the logits it is sampled from, and the position it is to be decoded at. -/
structure Sample (K : Type*) where
  logits : Logits K
  kvPos : Nat

/-- A call of the callback: the bytes that have been written at the pointer, the length, and the
token. -/
structure Call where
  buf : List UInt8
  len : Nat
  token : Int
deriving DecidableEq, Repr

/-- `VG_GenerateConfig`, as far as the loop depends on it. -/
structure VgGenerateConfig (K : Type*) where
  nPredict : Int
  nCtx : Int
  seed : Nat
  topK : Int
  topP : K
  temperature : K
  repeatPenalty : K
  repeatLastN : Int

/-- What stands for a configuration that is not given; the context is then that of the model. -/
def VgGenerateConfig.absent {K : Type*} [Zero K] [One K] (nCtx : Int) : VgGenerateConfig K where
  nPredict := 128
  nCtx := nCtx
  seed := 42
  topK := 1
  topP := 1
  temperature := 0
  repeatPenalty := 1
  repeatLastN := 0

/-- The prompt that is kept. -/
def keptPrompt (nCtx : Int) (ids : List Int) : List Int := ids.take (keptTokens nCtx ids.length)

section Settings

variable {K : Type*} [Field K] [LinearOrder K]

/-- `vg_apply_repetition_penalty` -/
def vgApplyRepetitionPenalty (logits : Nat → K) (nVocab : Nat) (history : List Int) (penalty : K) :
    Nat → K :=
  if history = [] ∨ ¬ 1 < penalty then logits
  else history.foldl (fun l t =>
    if t < 0 ∨ nVocab ≤ t.toNat then l else Function.update l t.toNat (l t.toNat - penalty)) logits

/-- The settings of a run. -/
def settingsOf (config : Option (VgGenerateConfig K)) (nCtx : Int) : VgGenerateConfig K :=
  config.getD (.absent nCtx)

/-- The first random state. -/
def seedOf (seed : Nat) : Nat := if seed = 0 ∨ seed = 0xffffffff then 42 else seed

/-- The window of the penalty, if there is one: at first the end of the prompt. -/
def recentOf (config : VgGenerateConfig K) (tokens : List Int) : Option (List Int) :=
  if 0 < config.repeatLastN ∧ 1 < config.repeatPenalty then
    some (tokens.drop (tokens.length - config.repeatLastN.toNat))
  else none

/-- A full window loses its first token. -/
def pushRecent (lastN : Nat) (recent : List Int) (next : Int) : List Int :=
  if recent.length < lastN then recent ++ [next] else recent.tail ++ [next]

end Settings

/-- What the run calls: the decoder, which gives its status, the logits of a decode that succeeds,
and the model after it; the sampler, given the logits, their number, the temperature, the filters and
the random state; and the callback, which says whether to go on. -/
structure Calls (K σ υ : Type*) where
  decode : σ → Int → Nat → Status × (Nat → K) × σ
  sampleNextToken : (Nat → K) → Nat → K → Int → K → Nat → Int × Nat
  callback : Option (υ → Call → Bool × υ)

section Decode

variable {K σ υ : Type*} (calls : Calls K σ υ)

/-- `vg_model_graph_decode` with the buffer of logits, which only a decode that succeeds writes. -/
def Calls.decodeLogits (m : σ × Logits K) (token : Int) (pos : Nat) : Status × (σ × Logits K) :=
  let (st, out, graph) := calls.decode m.1 token pos
  (st, (graph, if st = .ok then ⟨out, some pos⟩ else m.2))

end Decode

/-- The state of the loop, with what has been sampled and handed to the callback. -/
structure Gen (K σ υ : Type*) where
  run : Run (σ × Logits K)
  recent : Option (List Int)
  rng : Nat
  user : υ
  samples : List (Sample K)
  called : List Call

section Loop

variable {K σ υ : Type*} [Field K] [LinearOrder K] (calls : Calls K σ υ) (tok : VgTokenizer)
  (cfg : ModelConfig K) (config : VgGenerateConfig K) (nCtx : Int)

/-- The token that ends a text. -/
def eosOf : Int := if tok.eosId < 0 then cfg.eosId else tok.eosId

/-- The logits are penalised and a token is sampled from them. -/
def sampleStep (s : Gen K σ υ) : Int × Gen K σ υ :=
  let old := s.run.graph.2
  let logits : Logits K := ⟨vgApplyRepetitionPenalty old.val cfg.nVocab (s.recent.getD [])
    config.repeatPenalty, old.pos⟩
  let (next, rng) := calls.sampleNextToken logits.val cfg.nVocab config.temperature config.topK
    config.topP s.rng
  (next, { s with run := { s.run with graph := (s.run.graph.1, logits) }, rng := rng,
                  samples := s.samples ++ [⟨logits, s.run.kvPos⟩] })

/-- The token is decoded into 256 bytes, and what they hold goes to the callback, unless it is
nothing. -/
def callStep (next : Int) (s : Gen K σ υ) : Bool × Gen K σ υ :=
  let (buf, slen) := tok.decode next (some 256)
  match calls.callback with
  | none => (true, s)
  | some callback =>
    if slen = 0 then (true, s)
    else
      let (go, user) := callback s.user ⟨buf, slen, next⟩
      (go, { s with user := user, called := s.called ++ [⟨buf, slen, next⟩] })

/-- The token enters the window and is decoded. -/
def feedStep (next : Int) (s : Gen K σ υ) : Gen K σ υ :=
  { s with recent := s.recent.map fun recent => pushRecent config.repeatLastN.toNat recent next
           run := s.run.feed calls.decodeLogits next }

/-- One pass of the loop, and whether another one follows. -/
def generatePass (s : Gen K σ υ) : Bool × Gen K σ υ :=
  let (next, s) := sampleStep calls cfg config s
  if next = eosOf tok cfg then (false, s)
  else
    let (go, s) := callStep calls tok next s
    if go then (true, feedStep calls config next s) else (false, s)

def generateLoop : Nat → Gen K σ υ → Gen K σ υ
  | 0, s => s
  | gen + 1, s =>
    if s.run.st = .ok ∧ s.run.kvPos < nCtx then
      let (go, s) := generatePass calls tok cfg config s
      if go then generateLoop gen s else s
    else s

/-- What a run leaves: the tokenizer and the configuration it has loaded, the ids of the prompt, and
the last state. -/
structure Generated (K σ υ : Type*) where
  tok : VgTokenizer
  cfg : ModelConfig K
  ids : List Int
  last : Gen K σ υ

/-- `vg_generate`, over a model that has been loaded into `graph`; `heap` is what the buffer of
logits holds at first. -/
def generate (g : VgGguf) (strtof : List UInt8 → Option K) (junk junk' : Nat → Nat → UInt8)
    (config : Option (VgGenerateConfig K)) (prompt : List UInt8) (graph : σ) (heap : Nat → K)
    (user : υ) : Option (Generated K σ υ) :=
  match tokenizerLoad g with
  | .error _ => none
  | .ok tok =>
    (vgGenerate calls.decodeLogits g strtof junk junk' (config.map VgGenerateConfig.nCtx) prompt
      (graph, ⟨heap, none⟩)).map fun out =>
      let nCtx := contextOf (config.map VgGenerateConfig.nCtx) out.cfg.nCtx
      let config := settingsOf config nCtx
      let recent := recentOf config (keptPrompt nCtx out.ids)
      ⟨tok, out.cfg, out.ids, generateLoop calls tok out.cfg config nCtx config.nPredict.toNat
        ⟨out.run, recent, seedOf config.seed, user, [], []⟩⟩

end Loop

section Steps

variable {K σ υ : Type*} [Field K] [LinearOrder K] {calls : Calls K σ υ} {tok : VgTokenizer}
  {cfg : ModelConfig K} {config : VgGenerateConfig K} {nCtx : Int} {s s' : Gen K σ υ} {go : Bool}

/-- What is handed to the callback for a token. -/
def callOf (tok : VgTokenizer) (next : Int) : Call :=
  ⟨(tok.decode next (some 256)).1, (tok.decode next (some 256)).2, next⟩

omit [Field K] [LinearOrder K] in
/-- The callback is called or not, and the rest of the state but its own is as before. -/
theorem callStep_cases {next : Int} (h : callStep calls tok next s = (go, s')) :
    s'.run = s.run ∧ s'.samples = s.samples ∧
      (s'.called = s.called ∨ s'.called = s.called ++ [callOf tok next]) := by
  unfold callStep at h
  dsimp only at h
  split at h
  · cases h
    exact ⟨rfl, rfl, Or.inl rfl⟩
  · split_ifs at h
    · cases h
      exact ⟨rfl, rfl, Or.inl rfl⟩
    · cases h
      exact ⟨rfl, rfl, Or.inr rfl⟩

/-- What one pass does: it samples from the logits that it finds, it may call the callback, and where
another pass follows, it has decoded the token. -/
structure Passed (calls : Calls K σ υ) (tok : VgTokenizer) (s s' : Gen K σ υ) (go : Bool) : Prop where
  samples : ∃ val, s'.samples = s.samples ++ [⟨⟨val, s.run.graph.2.pos⟩, s.run.kvPos⟩]
  called : s'.called = s.called ∨ ∃ next, s'.called = s.called ++ [callOf tok next]
  decoded : go = true → ∃ (r : Run (σ × Logits K)) (next : Int),
    s'.run = r.feed calls.decodeLogits next

theorem generatePass_passed (h : generatePass calls tok cfg config s = (go, s')) :
    Passed calls tok s s' go := by
  obtain ⟨next, s₁, hsample⟩ : ∃ next s₁, sampleStep calls cfg config s = (next, s₁) := ⟨_, _, rfl⟩
  have hsamples : ∃ val, s₁.samples =
      s.samples ++ [⟨⟨val, s.run.graph.2.pos⟩, s.run.kvPos⟩] := by
    obtain ⟨-, rfl⟩ := Prod.mk.inj hsample
    exact ⟨_, rfl⟩
  have hcalled : s₁.called = s.called := by
    obtain ⟨-, rfl⟩ := Prod.mk.inj hsample
    rfl
  unfold generatePass at h
  rw [hsample] at h
  dsimp only at h
  by_cases heos : next = eosOf tok cfg
  · rw [if_pos heos] at h
    cases h
    exact ⟨hsamples, Or.inl hcalled, fun h => absurd h (by decide)⟩
  · obtain ⟨go₂, s₂, hcall⟩ : ∃ go₂ s₂, callStep calls tok next s₁ = (go₂, s₂) := ⟨_, _, rfl⟩
    obtain ⟨-, hsame, hcases⟩ := callStep_cases hcall
    have hlog : s₂.called = s.called ∨ ∃ next, s₂.called = s.called ++ [callOf tok next] := by
      rw [hcalled] at hcases
      exact hcases.imp_right fun h => ⟨next, h⟩
    rw [← hsame] at hsamples
    rw [if_neg heos, hcall] at h
    dsimp only at h
    split_ifs at h
    · cases h
      exact ⟨hsamples, hlog, fun _ => ⟨s₂.run, next, rfl⟩⟩
    · cases h
      exact ⟨hsamples, hlog, fun h => absurd h (by decide)⟩

/-- What holds before each pass, and what holds whether a pass has been the last or not. -/
theorem generateLoop_induct (P Q : Gen K σ υ → Prop) (hstart : ∀ s, P s → Q s)
    (hpass : ∀ s s' go, P s → s.run.st = .ok → Passed calls tok s s' go →
      Q s' ∧ (go = true → P s')) (n : Nat) (hs : P s) :
    Q (generateLoop calls tok cfg config nCtx n s) := by
  induction n generalizing s with
  | zero => exact hstart s hs
  | succ n ih =>
    unfold generateLoop
    split_ifs with hgo
    · obtain ⟨go, s', hs'⟩ : ∃ go s', generatePass calls tok cfg config s = (go, s') := ⟨_, _, rfl⟩
      obtain ⟨hQ, hP⟩ := hpass s s' go hs hgo.1 (generatePass_passed hs')
      rw [hs']
      dsimp only
      by_cases hnext : go = true
      · rw [if_pos hnext]
        exact ih (hP hnext)
      · rw [if_neg hnext]
        exact hQ
    · exact hstart s hs

/-- Nothing that has been sampled is forgotten. -/
theorem generateLoop_samples (n : Nat) {x : Sample K} (hx : x ∈ s.samples) :
    x ∈ (generateLoop calls tok cfg config nCtx n s).samples := by
  refine generateLoop_induct (x ∈ ·.samples) (x ∈ ·.samples) (fun _ h => h) ?_ n hx
  intro s s' go h _ hpassed
  obtain ⟨val, hsamples⟩ := hpassed.samples
  have hmem : x ∈ s'.samples := hsamples ▸ List.mem_append_left _ h
  exact ⟨hmem, fun _ => hmem⟩

/-- A loop that is entered samples from the logits that it finds. -/
theorem generateLoop_first (n : Nat) (hst : s.run.st = .ok) (hpos : s.run.kvPos < nCtx) :
    ∃ val, ⟨⟨val, s.run.graph.2.pos⟩, s.run.kvPos⟩ ∈
      (generateLoop calls tok cfg config nCtx (n + 1) s).samples := by
  obtain ⟨go, s', hs'⟩ : ∃ go s', generatePass calls tok cfg config s = (go, s') := ⟨_, _, rfl⟩
  obtain ⟨val, hsamples⟩ := (generatePass_passed hs').samples
  have hfirst : ⟨⟨val, s.run.graph.2.pos⟩, s.run.kvPos⟩ ∈ s'.samples := by
    rw [hsamples]
    exact List.mem_append_right _ (List.mem_singleton_self _)
  rw [generateLoop, if_pos ⟨hst, hpos⟩, hs']
  dsimp only
  split_ifs
  · exact ⟨val, generateLoop_samples n hfirst⟩
  · exact ⟨val, hfirst⟩

/-- The callback is given what belongs to a token. -/
theorem generateLoop_called (n : Nat) (hs : s.called = []) :
    ∀ c ∈ (generateLoop calls tok cfg config nCtx n s).called, c = callOf tok c.token := by
  refine generateLoop_induct (∀ c ∈ ·.called, c = callOf tok c.token)
    (∀ c ∈ ·.called, c = callOf tok c.token) (fun _ h => h) ?_ n (by simp [hs])
  intro s s' go h _ hpassed
  have hcalled : ∀ c ∈ s'.called, c = callOf tok c.token := by
    rcases hpassed.called with hsame | ⟨next, hnext⟩
    · rwa [hsame]
    · rw [hnext]
      intro c hc
      rcases List.mem_append.1 hc with hc | hc
      · exact h c hc
      · rw [List.mem_singleton.1 hc]
        rfl
  exact ⟨hcalled, fun _ => hcalled⟩

end Steps

section Callback

/-- The pointer and the length denote these bytes, all of which have been written. -/
def Call.Denotes (c : Call) (bytes : List UInt8) : Prop :=
  c.len ≤ c.buf.length ∧ c.buf.take c.len = bytes

instance (c : Call) (bytes : List UInt8) : Decidable (c.Denotes bytes) :=
  inferInstanceAs (Decidable (_ ∧ _))

/-- A piece that the buffer of 256 bytes holds, before its terminator or with it. -/
def FitsBuffer (piece : List UInt8) : Prop :=
  piece.length ≤ 255 ∨ (piece.length = 256 ∧ piece.getLast? = some 0)

/-- A call denotes the bytes of its token exactly when the buffer holds them. -/
theorem callOf_denotes_iff (tok : VgTokenizer) (next : Int) :
    (callOf tok next).Denotes (tok.piece next) ↔ FitsBuffer (tok.piece next) := by
  unfold callOf Call.Denotes FitsBuffer
  rw [decode_eq]
  generalize tok.piece next = piece
  dsimp only [Option.getD_some]
  unfold terminated
  rw [if_neg (by decide), List.length_append, List.length_take, List.length_singleton]
  rcases Nat.lt_trichotomy piece.length 256 with hshort | hlast | hlong
  · have hwhole : piece.take (256 - 1) = piece := List.take_of_length_le (by omega)
    rw [hwhole, List.take_left]
    exact iff_of_true ⟨by omega, rfl⟩ (Or.inl (by omega))
  · have hne : piece ≠ [] := by
      rintro rfl
      cases hlast
    have hsplit : piece.take (256 - 1) ++ [piece.getLast hne] = piece := by
      rw [← hlast, ← List.dropLast_eq_take, List.dropLast_append_getLast]
    have htake : (piece.take (256 - 1) ++ [0]).take piece.length = piece.take (256 - 1) ++ [0] := by
      apply List.take_of_length_le
      rw [List.length_append, List.length_take, List.length_singleton]
      omega
    have hzero : piece.take (256 - 1) ++ [0] = piece ↔ piece.getLast hne = 0 := by
      constructor
      · intro h
        have hlasts := List.append_cancel_left (h.trans hsplit.symm)
        exact (List.singleton_inj.1 hlasts).symm
      · intro h
        rw [← h, hsplit]
    rw [htake, hzero, List.getLast?_eq_some_getLast hne, Option.some.injEq]
    constructor
    · exact fun h => Or.inr ⟨hlast, h.2⟩
    · rintro (hshort | h)
      · omega
      · exact ⟨by omega, h.2⟩
  · refine iff_of_false (fun h => ?_) ?_
    · have hle := h.1
      omega
    · omega

end Callback

section Fresh

variable {K σ υ : Type*} {calls : Calls K σ υ} {nCtx : Int} {r : Run (σ × Logits K)}

/-- A sample from what a decode has written at the position before. -/
def Sample.Written (x : Sample K) : Prop := ∃ pos, x.logits.pos = some pos ∧ pos + 1 = x.kvPos

/-- The last decode has written the logits, unless it failed. -/
def Fresh (r : Run (σ × Logits K)) : Prop :=
  r.st = .ok → ∃ pos, r.graph.2.pos = some pos ∧ pos + 1 = r.kvPos

theorem feed_fresh (r : Run (σ × Logits K)) (token : Int) : Fresh (r.feed calls.decodeLogits token) := by
  intro hst
  unfold Run.feed Calls.decodeLogits at hst ⊢
  dsimp only at hst ⊢
  rw [if_pos hst]
  exact ⟨r.kvPos, rfl, rfl⟩

theorem feedPrompt_fresh (tokens : List Int) (h : Fresh r) :
    Fresh (feedPrompt calls.decodeLogits nCtx tokens r) := by
  induction tokens generalizing r with
  | nil => exact h
  | cons token tokens ih =>
    unfold feedPrompt
    split_ifs
    · exact ih (feed_fresh r token)
    · exact h

variable {K' : Type*} {tok : VgTokenizer} {cfg : ModelConfig K'} {ids : List Int}
  {graph : σ × Logits K}

/-- Something is decoded before the first token is sampled: the BOS token, or a token of the
prompt. -/
theorem prefill_fresh (hctx : 1 ≤ nCtx)
    (h : 0 ≤ bosOf tok cfg (keptPrompt nCtx ids) ∨ keptPrompt nCtx ids ≠ []) :
    Fresh (prefill calls.decodeLogits tok cfg nCtx ids graph) := by
  unfold prefill
  change Fresh (feedPrompt calls.decodeLogits nCtx (keptPrompt nCtx ids)
    (if 0 ≤ bosOf tok cfg (keptPrompt nCtx ids) then _ else _))
  split_ifs with hbos
  · exact feedPrompt_fresh _ (feed_fresh _ _)
  · obtain ⟨token, tokens, htokens⟩ := List.exists_cons_of_ne_nil (h.resolve_left hbos)
    rw [htokens, feedPrompt, if_pos ⟨rfl, by dsimp only; push_cast; omega⟩]
    exact feedPrompt_fresh _ (feed_fresh _ _)

theorem prefill_idle (h : ¬ (0 ≤ bosOf tok cfg (keptPrompt nCtx ids) ∨ keptPrompt nCtx ids ≠ [])) :
    prefill calls.decodeLogits tok cfg nCtx ids graph = ⟨graph, 0, [], .ok⟩ := by
  obtain ⟨hbos, hkept⟩ := not_or.1 h
  unfold prefill
  change feedPrompt calls.decodeLogits nCtx (keptPrompt nCtx ids)
    (if 0 ≤ bosOf tok cfg (keptPrompt nCtx ids) then _ else _) = _
  rw [if_neg hbos, not_not.1 hkept]
  rfl

end Fresh

section Generate

variable {K σ υ : Type*} [Field K] [LinearOrder K] {calls : Calls K σ υ} {g : VgGguf}
  {strtof : List UInt8 → Option K} {junk junk' : Nat → Nat → UInt8}
  {config : Option (VgGenerateConfig K)} {prompt : List UInt8} {graph : σ} {heap : Nat → K}
  {user : υ} {out : Generated K σ υ}

/-- The context of a run. -/
def Generated.nCtx (out : Generated K σ υ) (config : Option (VgGenerateConfig K)) : Int :=
  contextOf (config.map VgGenerateConfig.nCtx) out.cfg.nCtx

def Generated.settings (out : Generated K σ υ) (config : Option (VgGenerateConfig K)) :
    VgGenerateConfig K := settingsOf config (out.nCtx config)

/-- The loop starts behind the prefill. -/
theorem generate_last (h : generate calls g strtof junk junk' config prompt graph heap user = some out) :
    1 ≤ out.nCtx config ∧ ∃ recent rng, out.last = generateLoop calls out.tok out.cfg
      (out.settings config) (out.nCtx config) (out.settings config).nPredict.toNat
      ⟨prefill calls.decodeLogits out.tok out.cfg (out.nCtx config) out.ids (graph, ⟨heap, none⟩),
        recent, rng, user, [], []⟩ := by
  unfold generate at h
  split at h
  · cases h
  rename_i tok hload
  obtain ⟨found, hfound, rfl⟩ := Option.map_eq_some_iff.1 h
  unfold vgGenerate at hfound
  rw [hload] at hfound
  dsimp only at hfound
  obtain ⟨cfg, hcfg, hfound⟩ := Option.bind_eq_some_iff.1 hfound
  obtain ⟨ids, -, rfl⟩ := Option.map_eq_some_iff.1 hfound
  exact ⟨contextOf_pos (loadConfig_nCtx hcfg), recentOf _ _, seedOf _, rfl⟩

/-- Every call of the callback denotes the bytes of its token exactly when the buffer holds the
bytes of all tokens that it is called for. -/
theorem called_denotes_iff
    (h : generate calls g strtof junk junk' config prompt graph heap user = some out) :
    (∀ c ∈ out.last.called, c.Denotes (out.tok.piece c.token)) ↔
      ∀ c ∈ out.last.called, FitsBuffer (out.tok.piece c.token) := by
  obtain ⟨-, recent, rng, hlast⟩ := generate_last h
  have hcalls : ∀ c ∈ out.last.called, c = callOf out.tok c.token := by
    rw [hlast]
    exact generateLoop_called _ rfl
  refine forall₂_congr fun c hc => ?_
  have hdenotes := callOf_denotes_iff out.tok c.token
  rwa [← hcalls c hc] at hdenotes

/-- Behind a decode, all tokens are sampled from what the last one has written. -/
theorem samples_written
    (h : generate calls g strtof junk junk' config prompt graph heap user = some out)
    (hfed : 0 ≤ bosOf out.tok out.cfg (keptPrompt (out.nCtx config) out.ids) ∨
      keptPrompt (out.nCtx config) out.ids ≠ []) :
    ∀ x ∈ out.last.samples, x.Written := by
  obtain ⟨hctx, recent, rng, hlast⟩ := generate_last h
  rw [hlast]
  refine generateLoop_induct (fun s => Fresh s.run ∧ ∀ x ∈ s.samples, x.Written)
    (fun s => ∀ x ∈ s.samples, x.Written) (fun _ h => h.2) ?_ _
    ⟨prefill_fresh hctx hfed, fun x hx => absurd hx List.not_mem_nil⟩
  rintro s s' go ⟨hfresh, hwritten⟩ hst hpassed
  obtain ⟨val, hsamples⟩ := hpassed.samples
  have hnow : ∀ x ∈ s'.samples, x.Written := by
    rw [hsamples]
    intro x hx
    rcases List.mem_append.1 hx with hx | hx
    · exact hwritten x hx
    · rw [List.mem_singleton.1 hx]
      exact hfresh hst
  refine ⟨hnow, fun hgo => ⟨?_, hnow⟩⟩
  obtain ⟨r, next, hrun⟩ := hpassed.decoded hgo
  rw [hrun]
  exact feed_fresh r next

/-- Before any decode, a token is sampled from what the heap left there. -/
theorem samples_unwritten
    (h : generate calls g strtof junk junk' config prompt graph heap user = some out)
    (hcount : 0 < (out.settings config).nPredict)
    (hfed : ¬ (0 ≤ bosOf out.tok out.cfg (keptPrompt (out.nCtx config) out.ids) ∨
      keptPrompt (out.nCtx config) out.ids ≠ [])) :
    ¬ ∀ x ∈ out.last.samples, x.Written := by
  obtain ⟨hctx, recent, rng, hlast⟩ := generate_last h
  obtain ⟨n, hn⟩ : ∃ n, (out.settings config).nPredict.toNat = n + 1 :=
    ⟨(out.settings config).nPredict.toNat - 1, by omega⟩
  let start : Gen K σ υ := ⟨⟨(graph, ⟨heap, none⟩), 0, [], .ok⟩, recent, rng, user, [], []⟩
  have hroom : (start.run.kvPos : Int) < out.nCtx config := hctx
  obtain ⟨val, hfirst⟩ : ∃ val, ⟨⟨val, none⟩, 0⟩ ∈ (generateLoop calls out.tok out.cfg
      (out.settings config) (out.nCtx config) (n + 1) start).samples :=
    generateLoop_first n rfl hroom
  rw [hlast, hn, prefill_idle hfed]
  intro hall
  obtain ⟨pos, hpos, -⟩ := hall _ hfirst
  cases hpos

/-- Every token is sampled from logits that the decode at the position before has written, exactly
when none is to be sampled, or a BOS token or a token of the prompt is decoded before. -/
theorem samples_written_iff
    (h : generate calls g strtof junk junk' config prompt graph heap user = some out) :
    (∀ x ∈ out.last.samples, x.Written) ↔ (out.settings config).nPredict ≤ 0 ∨
      0 ≤ bosOf out.tok out.cfg (keptPrompt (out.nCtx config) out.ids) ∨
      keptPrompt (out.nCtx config) out.ids ≠ [] := by
  by_cases hfed : 0 ≤ bosOf out.tok out.cfg (keptPrompt (out.nCtx config) out.ids) ∨
      keptPrompt (out.nCtx config) out.ids ≠ []
  · exact iff_of_true (samples_written h hfed) (Or.inr hfed)
  by_cases hcount : (out.settings config).nPredict ≤ 0
  · obtain ⟨-, recent, rng, hlast⟩ := generate_last h
    rw [hlast, Int.toNat_of_nonpos hcount]
    exact iff_of_true (fun x hx => absurd hx List.not_mem_nil) (Or.inl hcount)
  · refine iff_of_false (samples_unwritten h (not_le.1 hcount) hfed) ?_
    exact not_or.2 ⟨hcount, hfed⟩

end Generate

section Example

/-- A file with a BOS token of a given id and a last token of a given text. -/
def tokenFile (bos : String) (last : List UInt8) : VgGguf where
  fileSize := 4096
  dataBase := 0
  tensorCount := 0
  tensors := none
  metas := [
    (txt "general.architecture", txt "llama"),
    (txt "llama.vocab_size", txt "3"),
    (txt "tokenizer.ggml.model", txt "llama"),
    (txt "tokenizer.ggml.tokens", txt "[\"<unk>\", \"<s>\", \"" ++ last ++ txt "\"]"),
    (txt "tokenizer.ggml.bos_token_id", txt bos)]
  tensorHash := none
  metaHash := none

/-- One token is to be sampled. -/
def oneToken : VgGenerateConfig ℚ := { VgGenerateConfig.absent 0 with nPredict := 1 }

/-- A model that decodes anything, a sampler that takes the last token, and a callback. -/
def lastToken : Calls ℚ Unit Unit where
  decode := fun graph _ _ => (.ok, fun _ => 0, graph)
  sampleNextToken := fun _ _ _ _ _ rng => (2, rng)
  callback := some fun user _ => (true, user)

/-- A run over such a file without a prompt. -/
def tokenRun (bos : String) (last : List UInt8) : Option (Generated ℚ Unit Unit) :=
  generate lastToken (tokenFile bos last) (fun _ => none) (fun _ _ => 0) (fun _ _ => 0)
    (some oneToken) [] () (fun _ => 0) ()

theorem called_denotes_short_iff : ∃ out, tokenRun "1" (txt "ab") = some out ∧
    ((∀ c ∈ out.last.called, c.Denotes (out.tok.piece c.token)) ↔
      ∀ c ∈ out.last.called, FitsBuffer (out.tok.piece c.token)) := by
  have hrun : (tokenRun "1" (txt "ab")).isSome = true := by decide +kernel
  obtain ⟨out, hout⟩ := Option.isSome_iff_exists.1 hrun
  exact ⟨out, hout, called_denotes_iff hout⟩

/-- A token of 300 bytes is handed to the callback with its full length. -/
theorem long_token_overread : ¬ ∀ (g : VgGguf) (config : Option (VgGenerateConfig ℚ))
    (prompt : List UInt8) (out : Generated ℚ Unit Unit),
    generate lastToken g (fun _ => none) (fun _ _ => 0) (fun _ _ => 0) config prompt ()
      (fun _ => 0) () = some out →
      ∀ c ∈ out.last.called, c.Denotes (out.tok.piece c.token) := by
  intro hclaim
  have hrun : (tokenRun "1" (List.replicate 300 97)).map (fun out => decide (∃ c ∈ out.last.called,
      ¬ c.Denotes (out.tok.piece c.token))) = some true := by decide +kernel
  obtain ⟨out, hout, hlong⟩ := Option.map_eq_some_iff.1 hrun
  obtain ⟨c, hc, hover⟩ := of_decide_eq_true hlong
  exact hover (hclaim _ _ _ out hout c hc)

theorem samples_written_bos_iff : ∃ out, tokenRun "1" (txt "ab") = some out ∧
    ((∀ x ∈ out.last.samples, x.Written) ↔ (out.settings (some oneToken)).nPredict ≤ 0 ∨
      0 ≤ bosOf out.tok out.cfg (keptPrompt (out.nCtx (some oneToken)) out.ids) ∨
      keptPrompt (out.nCtx (some oneToken)) out.ids ≠ []) := by
  have hrun : (tokenRun "1" (txt "ab")).isSome = true := by decide +kernel
  obtain ⟨out, hout⟩ := Option.isSome_iff_exists.1 hrun
  exact ⟨out, hout, samples_written_iff hout⟩

/-- With an empty prompt, and a BOS token that the vocabulary does not have, nothing is decoded
before the first token is sampled. -/
theorem unwritten_sampled : ¬ ∀ (g : VgGguf) (config : Option (VgGenerateConfig ℚ))
    (prompt : List UInt8) (out : Generated ℚ Unit Unit),
    generate lastToken g (fun _ => none) (fun _ _ => 0) (fun _ _ => 0) config prompt ()
      (fun _ => 0) () = some out → ∀ x ∈ out.last.samples, x.Written := by
  intro hclaim
  have hrun : (tokenRun "9" (txt "ab")).map (fun out => decide
      (0 < (out.settings (some oneToken)).nPredict ∧
        ¬ (0 ≤ bosOf out.tok out.cfg (keptPrompt (out.nCtx (some oneToken)) out.ids) ∨
          keptPrompt (out.nCtx (some oneToken)) out.ids ≠ []))) = some true := by decide +kernel
  obtain ⟨out, hout, hidle⟩ := Option.map_eq_some_iff.1 hrun
  obtain ⟨hcount, hfed⟩ := of_decide_eq_true hidle
  exact samples_unwritten hout hcount hfed (hclaim _ _ _ out hout)

end Example

end VgEngine.Generate
