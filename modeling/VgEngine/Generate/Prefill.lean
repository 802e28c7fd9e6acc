import VgEngine.Model.Loaded
import VgEngine.Tokenizer.Encode
import Mathlib.Algebra.Order.Field.Rat

/-! `vg_generate` up to its first sampled token: the ids of the prompt, the BOS token, and what is
decoded of them. -/
namespace VgEngine.Generate
open Bytes Gguf Model Tokenizer

/-- The context of a run: what is asked for, as far as the model has it. -/
def contextOf (asked : Option Int) (modelCtx : Nat) : Int :=
  let nCtx := asked.getD (toInt32 modelCtx)
  let nCtx := if nCtx ≤ 0 then toInt32 modelCtx else nCtx
  if modelCtx < toUInt32 nCtx then toInt32 modelCtx else nCtx

/-- The prompt is encoded twice, for the count and into an array of that many ids; `junk` is what
fresh blocks hold. -/
def promptTokens (tok : VgTokenizer) (junk junk' : Nat → Nat → UInt8) (prompt : List UInt8) :
    Option (List Int) :=
  if prompt = [] then some []
  else
    (tok.encode junk prompt 0).bind fun counted =>
      if counted.n = 0 then some []
      else
        (tok.encode junk' prompt counted.n).bind fun filled =>
          if filled.written.length = counted.n then some filled.written else none

/-- How many ids of the prompt are kept. -/
def keptTokens (nCtx : Int) (n : Nat) : Nat :=
  if nCtx < n + 2 then (if 2 < nCtx then (nCtx - 2).toNat else 0) else n

/-- The token that is decoded before the prompt, or -1. -/
def bosOf {K : Type*} (tok : VgTokenizer) (cfg : ModelConfig K) (tokens : List Int) : Int :=
  let bos := if tok.addBos then tok.bosId else -1
  let bos := if bos < 0 then cfg.bosId else bos
  let bos := if bos < 0 ∨ cfg.nVocab ≤ toUInt32 bos then -1 else bos
  if tokens.head? = some bos then -1 else bos

/-- The model and its position, what has been decoded, and the last status. -/
structure Run (σ : Type*) where
  graph : σ
  kvPos : Nat
  fed : List Int
  st : Status

section Feed

variable {σ : Type*} (decode : σ → Int → Nat → Status × σ)

/-- One call of `vg_model_graph_decode`. -/
def Run.feed (r : Run σ) (token : Int) : Run σ :=
  let (st, graph) := decode r.graph token r.kvPos
  ⟨graph, r.kvPos + 1, r.fed ++ [token], st⟩

/-- The loop over the prompt. -/
def feedPrompt (nCtx : Int) : List Int → Run σ → Run σ
  | [], r => r
  | token :: tokens, r =>
    if r.st = .ok ∧ r.kvPos < nCtx then feedPrompt nCtx tokens (r.feed decode token) else r

/-- What `vg_generate` decodes before it samples. -/
def prefill {K : Type*} (tok : VgTokenizer) (cfg : ModelConfig K) (nCtx : Int) (ids : List Int)
    (graph : σ) : Run σ :=
  let tokens := ids.take (keptTokens nCtx ids.length)
  let bos := bosOf tok cfg tokens
  let r : Run σ := ⟨graph, 0, [], .ok⟩
  feedPrompt decode nCtx tokens (if 0 ≤ bos then r.feed decode bos else r)

/-- What is there when the first token is sampled: the configuration, the ids of the prompt and the
run so far. -/
structure Prefilled (K σ : Type*) where
  cfg : ModelConfig K
  ids : List Int
  run : Run σ

/-- `vg_generate` up to there, over a model that has been loaded into `graph`. -/
def vgGenerate {K : Type*} [Field K] [LinearOrder K] (g : VgGguf) (strtof : List UInt8 → Option K)
    (junk junk' : Nat → Nat → UInt8) (asked : Option Int) (prompt : List UInt8) (graph : σ) :
    Option (Prefilled K σ) :=
  match tokenizerLoad g with
  | .error _ => none
  | .ok tok =>
    (loadConfig g strtof).bind fun cfg =>
      (promptTokens tok junk junk' prompt).map fun ids =>
        ⟨cfg, ids, prefill decode tok cfg (contextOf asked cfg.nCtx) ids graph⟩

end Feed

section Policy

variable (g : VgGguf)

/-- The metadata asks for a BOS token, or does not say. -/
def asksForBos : Bool :=
  ((metaText g "tokenizer.ggml.add_bos_token").map (metaBool · true)).getD true

/-- The BOS token that is to be decoded before a prompt: the one that is declared, if there is one
and the metadata does not say otherwise. -/
def policyBos : Option Int :=
  let bos := metaId g "tokenizer.ggml.bos_token_id"
  if asksForBos g ∧ 0 ≤ bos then some bos else none

/-- What is to be decoded before sampling. -/
def policyTokens (nCtx : Int) (ids : List Int) : List Int :=
  ((policyBos g).filter fun bos => ids.head? ≠ some bos).toList ++ ids.take (nCtx - 2).toNat

/-- The BOS token of the model's configuration: the one that is declared, or 0. -/
def configuredBos : Int := readMetadataInt g (txt "tokenizer.ggml.bos_token_id") 0

/-- A BOS token that is asked for is in the vocabulary, and if the prompt starts with it, the
context has room for that token or the vocabulary lacks it. If none is asked for, the one of the
configuration is not in the vocabulary, or the prompt that is kept starts with it. -/
def PolicyMet (nVocab : Nat) (nCtx : Int) (ids : List Int) : Prop :=
  (∀ bos, policyBos g = some bos → if ids.head? = some bos then 2 < nCtx ∨ nVocab ≤ toUInt32 bos
    else toUInt32 bos < nVocab) ∧
  (policyBos g = none → configuredBos g < 0 ∨ nVocab ≤ toUInt32 (configuredBos g) ∨
    (2 < nCtx ∧ ids.head? = some (configuredBos g)))

end Policy

section Fed

variable {σ : Type*} {decode : σ → Int → Nat → Status × σ} {nCtx : Int} {tokens : List Int}
  {r : Run σ}

/-- A prompt that ends well and fits has been decoded whole. -/
theorem feedPrompt_fed (hst : (feedPrompt decode nCtx tokens r).st = .ok)
    (hroom : (r.kvPos + tokens.length : Int) ≤ nCtx) :
    (feedPrompt decode nCtx tokens r).fed = r.fed ++ tokens := by
  induction tokens generalizing r with
  | nil => exact (List.append_nil _).symm
  | cons token tokens ih =>
    rw [List.length_cons] at hroom
    unfold feedPrompt at hst ⊢
    split_ifs at hst ⊢ with hgo
    · have hrest := ih hst (by simp only [Run.feed]; push_cast at hroom ⊢; omega)
      rw [hrest]
      simp [Run.feed]
    · push_cast at hroom
      exact absurd ⟨hst, by omega⟩ hgo

theorem keptTokens_le (hctx : 1 ≤ nCtx) (n : Nat) : (keptTokens nCtx n : Int) + 1 ≤ nCtx := by
  unfold keptTokens
  split_ifs <;> omega

theorem take_keptTokens (hctx : 1 ≤ nCtx) (ids : List Int) :
    ids.take (keptTokens nCtx ids.length) = ids.take (nCtx - 2).toNat := by
  unfold keptTokens
  split_ifs with hlong htwo
  · rfl
  · rw [show (nCtx - 2).toNat = 0 by omega]
  · rw [List.take_length, List.take_of_length_le (by omega)]

theorem head?_take (hctx : 1 ≤ nCtx) (ids : List Int) :
    (ids.take (nCtx - 2).toNat).head? = if 2 < nCtx then ids.head? else none := by
  split_ifs with htwo
  · obtain ⟨k, hk⟩ : ∃ k, (nCtx - 2).toNat = k + 1 := ⟨(nCtx - 3).toNat, by omega⟩
    rw [hk]
    cases ids <;> rfl
  · rw [show (nCtx - 2).toNat = 0 by omega, List.take_zero]
    rfl

/-- A prefill that ends well has decoded the BOS token, if there is one, and the kept prompt. -/
theorem prefill_fed {K : Type*} {tok : VgTokenizer} {cfg : ModelConfig K} {ids : List Int}
    {graph : σ} (hctx : 1 ≤ nCtx) (hst : (prefill decode tok cfg nCtx ids graph).st = .ok) :
    (prefill decode tok cfg nCtx ids graph).fed =
      (let bos := bosOf tok cfg (ids.take (nCtx - 2).toNat)
        if 0 ≤ bos then [bos] else []) ++ ids.take (nCtx - 2).toNat := by
  have hkept := keptTokens_le hctx ids.length
  have hlength : ((ids.take (keptTokens nCtx ids.length)).length : Int) + 1 ≤ nCtx := by
    rw [List.length_take]
    omega
  unfold prefill at hst ⊢
  dsimp only at hst ⊢
  rw [feedPrompt_fed hst, take_keptTokens hctx]
  · congr 1
    split_ifs <;> rfl
  · split_ifs
    · simp only [Run.feed]
      push_cast
      omega
    · dsimp only
      push_cast
      omega

end Fed

section Load

variable {g : VgGguf} {tok : VgTokenizer} {K : Type*} {cfg : ModelConfig K}

theorem tokenizerLoad_bos (h : tokenizerLoad g = .ok tok) :
    tok.bosId = metaId g "tokenizer.ggml.bos_token_id" ∧
      tok.addBos = (policyBos g).isSome := by
  unfold tokenizerLoad at h
  cases htokens : metaText g "tokenizer.ggml.tokens" with
  | none => simp [htokens] at h
  | some tokens =>
    rw [htokens] at h
    dsimp only at h
    split_ifs at h
    cases h
    refine ⟨rfl, ?_⟩
    dsimp only
    unfold policyBos asksForBos
    dsimp only
    split_ifs with hpolicy
    · simp [hpolicy.1, hpolicy.2]
    · simpa using hpolicy

theorem policyBos_some {bos : Int} (h : policyBos g = some bos) :
    bos = metaId g "tokenizer.ggml.bos_token_id" ∧ 0 ≤ bos := by
  unfold policyBos at h
  dsimp only at h
  split_ifs at h with hpolicy
  obtain rfl := Option.some.inj h
  exact ⟨rfl, hpolicy.2⟩

theorem contextOf_pos {asked : Option Int} {modelCtx : Nat} (h : 1 ≤ toInt32 modelCtx) :
    1 ≤ contextOf asked modelCtx := by
  unfold contextOf
  dsimp only
  split_ifs <;> omega

/-- The token before the prompt, by the policy of the metadata. -/
theorem bosOf_eq (hload : tokenizerLoad g = .ok tok) (hcfg : cfg.bosId = configuredBos g)
    (tokens : List Int) :
    bosOf tok cfg tokens =
      let bos := (policyBos g).getD (configuredBos g)
      let bos := if bos < 0 ∨ cfg.nVocab ≤ toUInt32 bos then -1 else bos
      if tokens.head? = some bos then -1 else bos := by
  obtain ⟨hid, hadd⟩ := tokenizerLoad_bos hload
  unfold bosOf
  rw [hadd, hid, hcfg]
  cases hpolicy : policyBos g with
  | none => rfl
  | some bos =>
    obtain ⟨rfl, hpos⟩ := policyBos_some hpolicy
    simp only [Option.isSome_some, if_true, Option.getD_some, if_neg (not_lt.2 hpos)]

/-- No token is decoded before the prompt. -/
theorem bos_nil_iff {first : Option Int} {bos : Int} {nVocab : Nat} :
    (let bos := if bos < 0 ∨ nVocab ≤ toUInt32 bos then -1 else bos
      let bos := if first = some bos then -1 else bos
      if 0 ≤ bos then [bos] else []) = [] ↔
    bos < 0 ∨ nVocab ≤ toUInt32 bos ∨ first = some bos := by
  dsimp only
  by_cases hrefused : bos < 0 ∨ nVocab ≤ toUInt32 bos
  · have hnone : ¬ (0 : Int) ≤ if first = some (-1) then -1 else -1 := by
      split_ifs <;> omega
    rw [if_pos hrefused, if_neg hnone]
    exact iff_of_true rfl (hrefused.imp_right Or.inl)
  · rw [if_neg hrefused]
    split_ifs <;> simp_all

/-- That token is decoded before the prompt. -/
theorem bos_single_iff {first : Option Int} {bos : Int} {nVocab : Nat} (hpos : 0 ≤ bos) :
    (let bos := if bos < 0 ∨ nVocab ≤ toUInt32 bos then -1 else bos
      let bos := if first = some bos then -1 else bos
      if 0 ≤ bos then [bos] else []) = [bos] ↔
    toUInt32 bos < nVocab ∧ first ≠ some bos := by
  dsimp only
  by_cases hrefused : bos < 0 ∨ nVocab ≤ toUInt32 bos
  · have hnone : ¬ (0 : Int) ≤ if first = some (-1) then -1 else -1 := by
      split_ifs <;> omega
    rw [if_pos hrefused, if_neg hnone]
    refine iff_of_false (by simp) ?_
    rintro ⟨hlt, -⟩
    rcases hrefused with hneg | hle
    · omega
    · omega
  · rw [if_neg hrefused]
    split_ifs <;> simp_all

section Config

variable [Field K] [LinearOrder K] {strtof : List UInt8 → Option K}

theorem loadConfig_nCtx (h : loadConfig g strtof = some cfg) : 1 ≤ toInt32 cfg.nCtx := by
  obtain ⟨arch, -, rfl⟩ := Option.map_eq_some_iff.1 h
  obtain ⟨-, hhigh⟩ := metaInt_range (g := g) (archKey arch ".context_length")
  rw [← readMetadataInt_eq] at hhigh
  unfold configOf
  dsimp only
  split_ifs with hpos
  · unfold toInt32 toUInt32 toSigned
    split_ifs <;> omega
  · decide

theorem loadConfig_bosId (h : loadConfig g strtof = some cfg) : cfg.bosId = configuredBos g := by
  obtain ⟨arch, -, rfl⟩ := Option.map_eq_some_iff.1 h
  rfl

end Config

end Load

/-- What is decoded before sampling is what the policy asks for, in these cases and no others. -/
theorem vgGenerate_iff {g : VgGguf} {K : Type*} [Field K] [LinearOrder K]
    {strtof : List UInt8 → Option K} {junk junk' : Nat → Nat → UInt8} {asked : Option Int}
    {prompt : List UInt8} {σ : Type*} {decode : σ → Int → Nat → Status × σ} {graph : σ}
    {out : Prefilled K σ}
    (h : vgGenerate decode g strtof junk junk' asked prompt graph = some out)
    (hst : out.run.st = .ok) :
    out.run.fed = policyTokens g (contextOf asked out.cfg.nCtx) out.ids ↔
      PolicyMet g out.cfg.nVocab (contextOf asked out.cfg.nCtx) out.ids := by
  unfold vgGenerate at h
  split at h
  · cases h
  rename_i tok hload
  obtain ⟨cfg, hcfg, h⟩ := Option.bind_eq_some_iff.1 h
  obtain ⟨ids, -, rfl⟩ := Option.map_eq_some_iff.1 h
  dsimp only at hst ⊢
  have hctx : 1 ≤ contextOf asked cfg.nCtx := contextOf_pos (loadConfig_nCtx hcfg)
  generalize contextOf asked cfg.nCtx = nCtx at *
  rw [prefill_fed hctx hst, policyTokens, List.append_left_inj]
  dsimp only
  rw [bosOf_eq hload (loadConfig_bosId hcfg), head?_take hctx]
  unfold PolicyMet
  cases hpolicy : policyBos g with
  | none =>
    rw [Option.getD_none]
    refine bos_nil_iff.trans ?_
    split_ifs with htwo <;> simp [htwo]
  | some bos =>
    obtain ⟨-, hpos⟩ := policyBos_some hpolicy
    rw [Option.getD_some]
    by_cases hhead : ids.head? = some bos
    · have hfilter : ((some bos).filter fun bos => ids.head? ≠ some bos).toList = [] := by
        simp [hhead]
      rw [hfilter, bos_nil_iff]
      split_ifs with htwo <;> simp [htwo, hhead, not_lt.2 hpos]
    · have hfilter : ((some bos).filter fun bos => ids.head? ≠ some bos).toList = [bos] := by
        simp [hhead]
      rw [hfilter, bos_single_iff hpos]
      split_ifs with htwo <;> simp [hhead]

section Example

/-- A file that declares a BOS token and says in words whether it wants it. -/
def bosFile (wanted : String) : VgGguf where
  fileSize := 4096
  dataBase := 0
  tensorCount := 0
  tensors := none
  metas := [
    (txt "general.architecture", txt "llama"),
    (txt "llama.vocab_size", txt "5"),
    (txt "tokenizer.ggml.model", txt "llama"),
    (txt "tokenizer.ggml.tokens", txt "[\"<unk>\", \"<s>\", \"\\u2581\", \"a\", \"b\"]"),
    (txt "tokenizer.ggml.bos_token_id", txt "1"),
    (txt "tokenizer.ggml.add_bos_token", txt wanted)]
  tensorHash := none
  metaHash := none

/-- A model that decodes anything. -/
def decodesAll (graph : Unit) (_ : Int) (_ : Nat) : Status × Unit := (.ok, graph)

/-- A run over the file, for a prompt. -/
def bosRun (wanted prompt : String) : Option (Prefilled ℚ Unit) :=
  vgGenerate decodesAll (bosFile wanted) (fun _ => none) (fun _ _ => 0) (fun _ _ => 0) none
    (txt prompt) ()

theorem vgGenerate_iff_wanted : ∃ out, bosRun "true" "ab" = some out ∧
    (out.run.fed = policyTokens (bosFile "true") (contextOf none out.cfg.nCtx) out.ids ↔
      PolicyMet (bosFile "true") out.cfg.nVocab (contextOf none out.cfg.nCtx) out.ids) := by
  have hst : (bosRun "true" "ab").map (fun out => out.run.st) = some .ok := by decide +kernel
  obtain ⟨out, hout, hok⟩ := Option.map_eq_some_iff.1 hst
  exact ⟨out, hout, vgGenerate_iff hout hok⟩

/-- A BOS token that the metadata does not want is decoded. -/
theorem unwanted_bos_fed : ¬ ∀ (g : VgGguf) (junk junk' : Nat → Nat → UInt8) (asked : Option Int)
    (prompt : List UInt8) (out : Prefilled ℚ Unit),
    vgGenerate decodesAll g (fun _ => none) junk junk' asked prompt () = some out →
      out.run.st = .ok → out.run.fed = policyTokens g (contextOf asked out.cfg.nCtx) out.ids := by
  intro h
  have hrun : (bosRun "false" "ab").map (fun out => decide (out.run.st = .ok ∧
      out.run.fed ≠ policyTokens (bosFile "false") (contextOf none out.cfg.nCtx) out.ids)) =
        some true := by decide +kernel
  obtain ⟨out, hout, hdiffers⟩ := Option.map_eq_some_iff.1 hrun
  obtain ⟨hst, hne⟩ := of_decide_eq_true hdiffers
  exact hne (h _ _ _ _ _ out hout hst)

end Example

end VgEngine.Generate
