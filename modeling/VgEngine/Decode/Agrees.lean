import VgEngine.Decode.Validated

/-! The probe and the evaluator: on a file that the probe accepts, the decode takes the blocks
the probe has validated, reads inside its tensors and succeeds, exactly when the file has what
the probe does not look at. -/
namespace VgEngine.Decode
open Lib Bytes Gguf Model Single

section Decode

variable {K : Type*} {V S : Type} {g : VgGguf} {cfg : ModelConfig K} {ops : Ops V S}
variable {p : ModelProbe}

theorem modelGraphEmbed_gpuDense {G : Graph K} {o : Outcomes} (token : Int) (s : Work V S) :
    ((modelGraphEmbed G o ops token) s).1.2.gpuDense = s.gpuDense := by
  unfold modelGraphEmbed
  split
  · rfl
  cases find G.file (txt "token_embd.weight") with
  | none => rfl
  | some t =>
  dsimp only
  cases quantInfo t.ggmlType with
  | none => rfl
  | some q =>
  dsimp only
  rw [Logged.bind_value]
  split
  next =>
    split
    · rfl
    · rw [Logged.bind_value]
      split
      · rfl
      · split <;> rfl
  next => rfl

theorem kvPos_inside {kvPos : Nat} (h : kvPos < cfg.nCtx) :
    ¬ (cpuGraph g cfg).cfg.nCtx ≤ toUInt32 kvPos := by
  change ¬ cfg.nCtx ≤ ((kvPos : Int) % 2 ^ 32).toNat
  omega

variable [Field K] [LinearOrder K]

/-- Without a device the dense path is not taken. -/
theorem denseStage_cpu {o : Outcomes} (pos : Nat) {s : Work V S} (h : s.gpuDense ≠ some true) :
    denseStage (cpuGraph g cfg) o ops pos s =
      ((.failed, { s with gpuDense := some false }), []) := by
  have hoff : s.gpuDense.getD (gpuDenseOk (cpuGraph g cfg)) = false := by
    cases hflag : s.gpuDense with
    | none => simp [gpuDenseOk, cpuGraph]
    | some flag =>
      cases flag with
      | false => rfl
      | true => exact absurd hflag h
  change (if some (s.gpuDense.getD (gpuDenseOk (cpuGraph g cfg))) = some true
    then denseForward (cpuGraph g cfg) o ops pos else pure .failed)
    { s with gpuDense := some (s.gpuDense.getD (gpuDenseOk (cpuGraph g cfg))) } = _
  rw [hoff, if_neg (by decide)]
  rfl

theorem denseStage_then {P : Event → Prop} {c : Prop} {k : Dense → Exec V S Status} (pos : Nat)
    {s : Work V S} (h : s.gpuDense ≠ some true) (hk : Logged.Settles P (· = .ok) c (k .failed)) :
    (((denseStage (cpuGraph g cfg) allOk ops pos >>= k) s).1.1 = .ok ∧
      ∀ e ∈ ((denseStage (cpuGraph g cfg) allOk ops pos >>= k) s).2, P e) ↔ c := by
  rw [Logged.forall_bind_log, Logged.bind_value, denseStage_cpu pos h]
  simpa using hk { s with gpuDense := some false }

theorem hostPath_settles {c : Nat → Prop} (pos : Nat) (hvocab : 0 < cfg.nVocab)
    (hagreed : Agreed g cfg p)
    (hchecked : ∀ l < cfg.nLayer, LayerChecked g p.toGeometry p.qdim p.kdim l)
    (hroute : p.isMoe = true → ∀ l < cfg.nLayer, ∀ v, (∀ e ∈ moeRoute (ops.greater v)
      cfg.nExpert cfg.nExpertUsed, ExpertRuns g cfg l e) ↔ c l) :
    Logged.Settles (Event.Good (probedKind g p)) (· = .ok)
      ((∀ l ∈ List.range cfg.nLayer, LayerRuns g cfg p l (c l)) ∧ HeadFits g cfg)
      (hostPath (cpuGraph g cfg) allOk ops pos : Exec V S _) := by
  unfold hostPath
  refine .step (Q := fun _ => True)
    (hostLayers_settles hagreed (fun l hl => hchecked l (List.mem_range.1 hl))
      fun hmoe l hl => hroute hmoe l (List.mem_range.1 hl)) (fun _ => trivial) (fun st hst => ?_) fun st _ hst => ?_
  · rw [if_neg (not_not.2 hst)]
    have hfinish : Logged.Logs (Event.Good (probedKind g p)) (finish (cpuGraph g cfg) ops) :=
      (Logged.Logs.onlyIf (.modify _)).bind fun _ => .pure _
    exact ((outputHead_meets hvocab).last (fun _ => hfinish) fun _ _ _ => rfl).settles
  · rw [if_pos hst]
    exact settles_status hst

theorem hostPath_takes {P : Event → Prop} {layer : Nat} (pos : Nat) (hlayer : layer < cfg.nLayer)
    (hP : ∀ kind, ¬ P (.ffn layer kind)) : Logged.Settles P (· = .ok) False
      (hostPath (cpuGraph g cfg) allOk ops pos : Exec V S _) := by
  unfold hostPath
  refine .begins (hostLayers_takes (List.mem_range.2 hlayer) hP) fun st hst => ?_
  rw [if_pos hst]
  exact .pure _ (by simp [hst])

/-- After the check of its position, a decode on the CPU is an embedding and the host path. -/
theorem decode_host {P : Event → Prop} {c c' : Prop} {token kvPos : Nat} {s : Work V S}
    (hs : s.gpuDense ≠ some true) (hpos : kvPos < cfg.nCtx)
    (hembed : Logged.Settles P (· = .ok) c
      (modelGraphEmbed (cpuGraph g cfg) allOk ops token : Exec V S _))
    (hhost : ∀ pos, Logged.Settles P (· = .ok) c'
      (hostPath (cpuGraph g cfg) allOk ops pos : Exec V S _)) :
    ((modelGraphDecode (cpuGraph g cfg) allOk ops token kvPos s).1.1 = .ok ∧
      ∀ e ∈ (modelGraphDecode (cpuGraph g cfg) allOk ops token kvPos s).2, P e) ↔ c ∧ c' := by
  unfold modelGraphDecode
  rw [if_neg (kvPos_inside hpos), Logged.forall_bind_log, ← hembed s, Logged.bind_value]
  by_cases hst : ((modelGraphEmbed (cpuGraph g cfg) allOk ops (token : Int)) s).1.1 = .ok
  · rw [if_neg (not_not.2 hst)]
    have hdense : ((modelGraphEmbed (cpuGraph g cfg) allOk ops (token : Int)) s).1.2.gpuDense ≠
        some true := by rwa [modelGraphEmbed_gpuDense]
    rw [and_left_comm, denseStage_then _ hdense (hhost _), and_assoc]
    tauto
  · rw [if_pos hst]
    constructor
    · rintro ⟨hok, -⟩
      exact absurd hok hst
    · rintro ⟨⟨hok, -⟩, -⟩
      exact absurd hok hst

/-- A decode that succeeds has run the host path. -/
theorem decode_ends {P : Event → Prop} {token kvPos : Nat} {s : Work V S}
    (hs : s.gpuDense ≠ some true) (hpos : kvPos < cfg.nCtx)
    (hhost : ∀ pos, Logged.Settles P (· = .ok) False
      (hostPath (cpuGraph g cfg) allOk ops pos : Exec V S _)) :
    ¬ ((modelGraphDecode (cpuGraph g cfg) allOk ops token kvPos s).1.1 = .ok ∧
      ∀ e ∈ (modelGraphDecode (cpuGraph g cfg) allOk ops token kvPos s).2, P e) := by
  unfold modelGraphDecode
  rw [if_neg (kvPos_inside hpos), Logged.forall_bind_log, Logged.bind_value]
  by_cases hst : ((modelGraphEmbed (cpuGraph g cfg) allOk ops (token : Int)) s).1.1 = .ok
  · rw [if_neg (not_not.2 hst)]
    have hdense : ((modelGraphEmbed (cpuGraph g cfg) allOk ops (token : Int)) s).1.2.gpuDense ≠
        some true := by rwa [modelGraphEmbed_gpuDense]
    rw [and_left_comm, denseStage_then _ hdense (hhost _)]
    exact And.right
  · rw [if_pos hst]
    exact fun h => hst h.1

end Decode

section Agrees

variable {K : Type*} {strtof : List UInt8 → Option K} {g : VgGguf} {cfg : ModelConfig K}

/-- The decode takes the probe's block in each layer and no other, makes its products from rows
inside their tensors, and succeeds. -/
structure DecodeAgrees {V S : Type} (g : VgGguf) (cfg : ModelConfig K)
    (r : (Status × Work V S) × List Event) : Prop where
  ok : r.1.1 = .ok
  takes : ∀ l < cfg.nLayer, .ffn l (probedKind g (modelProbe g)) ∈ r.2
  only : ∀ l k, .ffn l k ∈ r.2 → k = probedKind g (modelProbe g)
  inside : ∀ c m, .matmul c m .ok ∈ r.2 → m.Inside

theorem DecodeAgrees.good {V S : Type} {r : (Status × Work V S) × List Event} (h : DecodeAgrees g cfg r) :
    r.1.1 = .ok ∧ ∀ e ∈ r.2, e.Good (probedKind g (modelProbe g)) := by
  refine ⟨h.ok, fun e he => ?_⟩
  cases e with
  | matmul c m status =>
    rintro rfl
    exact h.inside c m he
  | ffn l k => exact h.only l k he
  | call c failed => trivial
  | skipped place layer => trivial
  | refused status => trivial

/-- The file has what a decode takes from it. -/
structure DecodeRuns (g : VgGguf) (cfg : ModelConfig K) : Prop where
  embedding : ∀ token < cfg.nVocab, token < 2 ^ 31 → EmbedRuns g cfg token
  layers : ∀ l < cfg.nLayer,
    LayerRuns g cfg (modelProbe g) l (∀ e < cfg.nExpert, ExpertRuns g cfg l e)
  head : HeadFits g cfg

variable [Field K] [LinearOrder K]

theorem agreed (hprobe : (modelProbe g).ok = true) (hload : loadConfig g strtof = some cfg) :
    Agreed g cfg (modelProbe g) := by
  obtain ⟨arch, te, h⟩ := modelProbe_probed hprobe
  have hconfig := h.config hload
  constructor
  case layers => exact h.nLayer hload
  case experts =>
    intro hmoe
    have hflag : (modelProbe g).isMoe = (decide (1 < metaCount g arch ".expert_count") &&
        has g "blk.0.ffn_gate_inp.weight") := by
      rw [h.geometry]
      rfl
    rw [hflag, Bool.and_eq_true, decide_eq_true_eq] at hmoe
    have hcount := readInt_of_metaCount (g := g) h.known
      (show (txt ".expert_count").length ≤ 100 by decide +kernel) (by omega)
    rw [hconfig]
    change 1 < if readInt g arch ".expert_count" = 0 then 1 else readInt g arch ".expert_count"
    rw [hcount, if_neg (by omega)]
    exact hmoe.1
  case used =>
    rw [hconfig]
    change 0 < min (if readInt g arch ".expert_used_count" = 0 then 1
      else readInt g arch ".expert_used_count") (if readInt g arch ".expert_count" = 0 then 1
      else readInt g arch ".expert_count")
    split_ifs <;> omega
  case shared =>
    rw [hconfig, h.geometry]
    rfl
  case gate =>
    rw [hconfig]
    rfl

section Runs

variable {V S : Type} {ops : Ops V S} {s : Work V S} {token kvPos : Nat}

/-- A decode whose entries are good agrees with the probe. -/
theorem decodeAgrees_of_good (hs : s.gpuDense ≠ some true) (hpos : kvPos < cfg.nCtx)
    (hok : (modelGraphDecode (cpuGraph g cfg) allOk ops token kvPos s).1.1 = .ok)
    (hgood : ∀ e ∈ (modelGraphDecode (cpuGraph g cfg) allOk ops token kvPos s).2,
      e.Good (probedKind g (modelProbe g))) :
    DecodeAgrees g cfg (modelGraphDecode (cpuGraph g cfg) allOk ops token kvPos s) := by
  constructor
  case ok => exact hok
  case takes =>
    intro l hl
    by_contra hnone
    have hhost (pos : Nat) : Logged.Settles (fun e => e ≠ .ffn l (probedKind g (modelProbe g)) ∧
        e.Good (probedKind g (modelProbe g))) (· = .ok) False
        (hostPath (cpuGraph g cfg) allOk ops pos : Exec V S _) := by
      apply hostPath_takes pos hl
      rintro k ⟨hne, hk⟩
      exact hne (congrArg _ hk)
    refine decode_ends hs hpos hhost ⟨hok, fun e he => ⟨?_, hgood e he⟩⟩
    rintro rfl
    exact hnone he
  case only => exact fun l k hk => hgood _ hk
  case inside => exact fun c m hm => hgood _ hm rfl

end Runs

/-- A router that selects one expert before all others. -/
def favouring (e : Nat) : Ops Unit Unit := { unitOps with greater := fun _ => favours e }

/-- For every accepted file: on all tokens and positions, and whatever the weights hold, the
decode agrees with the probe, exactly when the file has what the decode takes. -/
theorem decodeAgrees_iff (hprobe : (modelProbe g).ok = true)
    (hload : loadConfig g strtof = some cfg) :
    (∀ (V S : Type) (ops : Ops V S) (s : Work V S) (token kvPos : Nat),
      s.gpuDense ≠ some true → token < cfg.nVocab → token < 2 ^ 31 → kvPos < cfg.nCtx →
      DecodeAgrees g cfg (modelGraphDecode (cpuGraph g cfg) allOk ops token kvPos s)) ↔
    cfg.nVocab = 0 ∨ DecodeRuns g cfg := by
  have hagreed := agreed hprobe hload
  obtain ⟨arch, te, hprobed⟩ := modelProbe_probed hprobe
  have hchecked : ∀ l < cfg.nLayer, LayerChecked g (modelProbe g).toGeometry (modelProbe g).qdim
      (modelProbe g).kdim l := fun l hl => hprobed.layers l (hagreed.layers ▸ hl)
  constructor
  · intro hall
    rcases Nat.eq_zero_or_pos cfg.nVocab with hzero | hvocab
    · exact Or.inl hzero
    · right
      have hhost (e pos : Nat) : Logged.Settles (Event.Good (probedKind g (modelProbe g)))
          (· = .ok) _ (hostPath (cpuGraph g cfg) allOk (favouring e) pos : Exec Unit Unit _) :=
        hostPath_settles (c := fun l => ∀ e' ∈ moeRoute (favours e) cfg.nExpert cfg.nExpertUsed,
          ExpertRuns g cfg l e') pos hvocab hagreed hchecked fun _ _ _ _ => Iff.rfl
      have hruns (e token : Nat) (htoken : token < cfg.nVocab) (hsmall : token < 2 ^ 31) :=
        (decode_host (by decide) (nCtx_pos hload) (modelGraphEmbed_settles htoken) (hhost e)).1
          (hall Unit Unit (favouring e) unitWork token 0 (by decide) htoken hsmall
            (nCtx_pos hload)).good
      have hfirst (e : Nat) := (hruns e 0 hvocab (by decide)).2
      constructor
      case embedding => exact fun token htoken hsmall => (hruns 0 token htoken hsmall).1
      case layers =>
        intro l hl
        have hlayer (e : Nat) := (hfirst e).1 l (List.mem_range.2 hl)
        refine ⟨(hlayer 0).attention, fun hmoe => ?_, (hlayer 0).dense⟩
        have hneeds (e : Nat) := (hlayer e).routed hmoe
        refine ⟨(hneeds 0).router, (hneeds 0).used, fun e he => ?_, (hneeds 0).shared⟩
        exact (hneeds e).experts e (mem_moeRoute_favours he hagreed.used)
      case head => exact (hfirst 0).2
  · rintro hruns V S ops s token kvPos hs htoken hsmall hpos
    have hruns := hruns.resolve_left (by omega)
    have hroute (hmoe : (modelProbe g).isMoe = true) (l : Nat) (hl : l < cfg.nLayer) (v : V) :
        (∀ e ∈ moeRoute (ops.greater v) cfg.nExpert cfg.nExpertUsed,
          ExpertRuns g cfg l e) ↔ True :=
      iff_true_intro fun e he => ((hruns.layers l hl).routed hmoe).experts e (moeRoute_lt he)
    have hhost (pos : Nat) : Logged.Settles (Event.Good (probedKind g (modelProbe g)))
        (· = .ok) _ (hostPath (cpuGraph g cfg) allOk ops pos : Exec V S _) :=
      hostPath_settles (c := fun _ => True) pos (by omega) hagreed hchecked hroute
    have hlayers : ∀ l ∈ List.range cfg.nLayer, LayerRuns g cfg (modelProbe g) l True := by
      intro l hl
      obtain ⟨hattention, hrouted, hdense⟩ := hruns.layers l (List.mem_range.1 hl)
      refine ⟨hattention, fun hmoe => ?_, hdense⟩
      obtain ⟨hrouter, hused, -, hshared⟩ := hrouted hmoe
      exact ⟨hrouter, hused, trivial, hshared⟩
    have hgood := (decode_host hs hpos (modelGraphEmbed_settles htoken) hhost).2
      ⟨hruns.embedding token htoken hsmall, hlayers, hruns.head⟩
    exact decodeAgrees_of_good hs hpos hgood.1 hgood.2

end Agrees

section Example

theorem decodeAgrees_float : ∃ (g : VgGguf) (cfg : ModelConfig ℚ),
    parseIndex plainLibc floatNormFile = .ok g ∧ (modelProbe g).ok = true ∧
      loadConfig g (fun _ => none) = some cfg ∧
      ((∀ (V S : Type) (ops : Ops V S) (s : Work V S) (token kvPos : Nat),
        s.gpuDense ≠ some true → token < cfg.nVocab → token < 2 ^ 31 → kvPos < cfg.nCtx →
        DecodeAgrees g cfg (modelGraphDecode (cpuGraph g cfg) allOk ops token kvPos s)) ↔
      cfg.nVocab = 0 ∨ DecodeRuns g cfg) := by
  have haccept : (parseIndex plainLibc floatNormFile).toOption.any
      (fun g => (modelProbe g).ok) = true := by decide +kernel
  cases hparse : parseIndex plainLibc floatNormFile with
  | error e =>
    rw [hparse] at haccept
    cases haccept
  | ok g =>
    rw [hparse] at haccept
    have hprobe : (modelProbe g).ok = true := haccept
    obtain ⟨cfg, hload⟩ := loadConfig_isSome (fun _ => none) hprobe
    exact ⟨g, cfg, rfl, hprobe, hload, decodeAgrees_iff hprobe hload⟩

/-- A layer that counts two experts and has a dense block, but no router. -/
def unroutedFile : GgufFile :=
  ⟨(llamaLayout
    [("block_count", 1), ("attention.head_count", 1), ("feed_forward_length", 1),
      ("expert_count", 2)]
    [("token_embd.weight", [1, 1], 0), ("output_norm.weight", [1], 0),
     ("blk.0.attn_norm.weight", [1], 0), ("blk.0.attn_q.weight", [1, 1], 0),
     ("blk.0.attn_k.weight", [1, 1], 0), ("blk.0.attn_v.weight", [1, 1], 0),
     ("blk.0.attn_output.weight", [1, 1], 0), ("blk.0.ffn_norm.weight", [1], 0),
     ("blk.0.ffn_up.weight", [1, 1], 0), ("blk.0.ffn_down.weight", [1, 1], 0)]).encode ++
    List.replicate 64 0, by decide +kernel, by decide +kernel⟩

/-- The probe validates the dense block of a file whose decode looks for experts and fails. -/
theorem unrouted_accepted :
    ¬ ∀ (env : Libc) (file : GgufFile) (g : VgGguf) (cfg : ModelConfig ℚ),
      parseIndex env file = .ok g → (modelProbe g).ok = true →
      loadConfig g (fun _ => none) = some cfg → ∀ token kvPos : Nat,
      token < cfg.nVocab → token < 2 ^ 31 → kvPos < cfg.nCtx →
      DecodeAgrees g cfg (modelGraphDecode (cpuGraph g cfg) allOk unitOps token kvPos unitWork) := by
  intro hclaim
  have haccept : (parseIndex plainLibc unroutedFile).toOption.any (fun g =>
      (modelProbe g).ok && (loadConfig g (fun _ => none)).any fun cfg : ModelConfig ℚ =>
        cfg.nVocab == 1 &&
        (modelGraphDecode (cpuGraph g cfg) allOk unitOps 0 0 unitWork).1.1 != .ok) = true := by
    decide +kernel
  cases hparse : parseIndex plainLibc unroutedFile with
  | error e =>
    rw [hparse] at haccept
    cases haccept
  | ok g =>
    rw [hparse] at haccept
    obtain ⟨hprobe, haccept⟩ := Bool.and_eq_true_iff.1 haccept
    obtain ⟨cfg, hload⟩ := loadConfig_isSome (fun _ => none) hprobe
    rw [hload] at haccept
    obtain ⟨hvocab, hfails⟩ := Bool.and_eq_true_iff.1 haccept
    have hvocab : 0 < cfg.nVocab := by simp [eq_of_beq hvocab]
    have hagrees := hclaim plainLibc unroutedFile g cfg hparse hprobe hload 0 0 hvocab
      (by decide) (nCtx_pos hload)
    exact absurd hagrees.ok (by simpa using hfails)

end Example

end VgEngine.Decode
