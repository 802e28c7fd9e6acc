import VgEngine.Decode.Agrees
import VgEngine.Decode.Lockstep

/-! Two decodes in step, continued: the feed-forward blocks. -/
namespace VgEngine.Decode
open Lib Bytes Gguf Model

section Calls

variable {K : Type*} {V S : Type} {g : Graph K} {o : Outcomes} {ops : Ops V S} {layer : Nat}

theorem acquireExpert_stateless (place : Place) (index : Nat) (kind : String)
    (expert outDim inDim : Nat) : Logged.Stateless
      (acquireExpert g o layer place index kind expert outDim inDim : Exec V S _) := by
  unfold acquireExpert
  apply (acquireWeight_stateless _).bind
  intro r
  cases r with
  | error st => exact .pure _
  | ok t =>
    apply Logged.Stateless.ite
    · exact (Logged.Stateless.log _).bind fun _ => .pure _
    · exact allocate_stateless.bind fun _ => .ite (.pure _) (.pure _)

theorem mmDispatch_stateless (place : Place) (index : Nat) (m : Matmul) (x : V) :
    Logged.Stateless (mmDispatch g o ops place layer index m x : Exec V S _) :=
  dispatch_stateless _ m x

theorem runExpert_stateless (logits xin : V) (ids : List Nat) (index expert : Nat) (acc : V) :
    Logged.Stateless (runExpert g o ops layer logits xin ids index expert acc : Exec V S _) := by
  unfold runExpert
  apply (acquireExpert_stateless _ _ _ _ _ _).bind
  intro r
  cases r with
  | error st => exact .pure _
  | ok gate =>
  apply (acquireExpert_stateless _ _ _ _ _ _).bind
  intro r
  cases r with
  | error st => exact .pure _
  | ok up =>
  apply (mmDispatch_stateless _ _ _ _).bind
  intro a
  apply Logged.Stateless.ite (.pure _)
  apply (mmDispatch_stateless _ _ _ _).bind
  intro b
  apply Logged.Stateless.ite (.pure _)
  apply (acquireExpert_stateless _ _ _ _ _ _).bind
  intro r
  cases r with
  | error st => exact .pure _
  | ok down =>
    apply (mmDispatch_stateless _ _ _ _).bind
    intro y
    exact .ite (.pure _) (.pure _)

theorem runExperts_stateless (logits xin : V) (ids : List Nat) (rest : List (Nat × Nat)) (acc : V) :
    Logged.Stateless (runExperts g o ops layer logits xin ids rest acc : Exec V S _) := by
  induction rest generalizing acc with
  | nil => exact .pure _
  | cons e rest ih =>
    apply (runExpert_stateless logits xin ids e.2 e.1 acc).bind
    intro r
    cases r with
    | error st => exact .pure _
    | ok acc => exact ih acc

theorem sharedGate_stateless : Logged.Stateless (sharedGate g o layer : Exec V S _) := by
  unfold sharedGate
  apply (acquireOptional_stateless _).bind
  intro r
  cases r <;> exact .pure _

theorem runShared_stateless (xin acc : V) :
    Logged.Stateless (runShared g o ops layer xin acc : Exec V S _) := by
  unfold runShared
  apply sharedGate_stateless.bind
  intro gate
  apply (acquireWeight_stateless _).bind
  intro r
  cases r with
  | error st => exact .pure _
  | ok tg =>
  apply (acquireWeight_stateless _).bind
  intro r
  cases r with
  | error st => exact .pure _
  | ok tu =>
  apply (mmDispatch_stateless _ _ _ _).bind
  intro a
  apply Logged.Stateless.ite (.pure _)
  apply (mmDispatch_stateless _ _ _ _).bind
  intro b
  apply Logged.Stateless.ite (.pure _)
  apply (acquireWeight_stateless _).bind
  intro r
  cases r with
  | error st => exact .pure _
  | ok td =>
    apply (mmDispatch_stateless _ _ _ _).bind
    intro y
    exact .ite (.pure _) (.pure _)

theorem addShared_stateless (xin acc : V) :
    Logged.Stateless (addShared g o ops layer xin acc : Exec V S _) :=
  .ite (runShared_stateless xin acc) (.pure _)

end Calls

section Layers

variable {K : Type*} {V S : Type} {g : VgGguf} {cfg : ModelConfig K} {o : Outcomes} {ops : Ops V S}
variable {layer pos : Nat} {same : V → V → Prop} {rel : S → S → Prop}

theorem finishMoe_coupled (acc : V) (shared : Bool) : Logged.Coupled (Within same rel)
    (finishMoe (cpuGraph g cfg) o ops layer acc shared) fun _ => Beside same rel := by
  unfold finishMoe
  apply Logged.Coupled.after (postNorm_stateless _ _)
  intro y
  apply Logged.Coupled.bind (T := fun _ => Beside same rel)
  · apply Logged.Coupled.modify
    intro s s' hs
    refine ⟨?_, hs.logits, hs.kv, hs.cold, hs.cold'⟩
    change ops.add y s.res = ops.add y s'.res
    rw [hs.res]
  intro _
  apply Logged.Coupled.after (.log _)
  intro _
  exact .pure fun s s' hs => hs

/-- The routed block has one outcome from both states, whatever fails in it. -/
theorem moeFfnLayer_coupled : Logged.Coupled (Beside same rel)
    (moeFfnLayer (cpuGraph g cfg) o ops layer) fun _ => Beside same rel := by
  have hends (st : Status) : Logged.Coupled (Within same rel) (pure st : Exec V S Status)
      fun _ => Beside same rel := .pure fun s s' hs => hs.toBeside
  unfold moeFfnLayer
  apply Logged.Coupled.get
  · intro s s' hs
    rw [hs.hidden]
  intro w
  apply Logged.Coupled.bind (T := fun _ => Within same rel)
  · apply Logged.Coupled.modify
    intro s s' hs
    exact ⟨⟨hs.hidden, hs.logits, hs.kv, hs.cold, hs.cold'⟩, hs.hidden⟩
  intro _
  apply Logged.Coupled.after (normalise_stateless _ _)
  intro xin
  apply Logged.Coupled.after (acquireWeight_stateless _)
  intro r
  cases r with
  | error st => exact hends st
  | ok t =>
  apply Logged.Coupled.after (mmDispatch_stateless _ _ _ _)
  intro logits
  apply Logged.Coupled.ite (fun _ => hends _)
  intro _
  apply Logged.Coupled.ite
  · intro _
    exact .after (.log _) fun _ => hends _
  intro _
  apply Logged.Coupled.after allocate_stateless
  intro ready
  apply Logged.Coupled.ite _ fun _ => hends _
  intro _
  dsimp only
  apply Logged.Coupled.bind (T := fun _ => Within same rel)
  · apply Logged.Coupled.modify
    intro s s' hs
    exact ⟨⟨rfl, hs.logits, hs.kv, hs.cold, hs.cold'⟩, hs.res⟩
  intro _
  apply Logged.Coupled.after (runExperts_stateless _ _ _ _ _)
  intro r
  cases r with
  | error st => exact hends st
  | ok acc => exact .after (addShared_stateless xin acc) fun acc => finishMoe_coupled _ _

/-- What two decodes share once `work_ffn` is filled. -/
structure Filled (same : V → V → Prop) (rel : S → S → Prop) (s s' : Work V S) : Prop
    extends Within same rel s s' where
  ffn : s.ffn = s'.ffn

/-- The first half of a dense block finds its weights. -/
structure Fed (g : VgGguf) (cfg : ModelConfig K) (o : Outcomes) (layer : Nat) : Prop where
  up : ∃ t, find g (blk layer "ffn_up.weight") = some t
  gate : cfg.hasGateUp = true → ∃ t, find g (blk layer "ffn_gate.weight") = some t
  gated : cfg.hasGateUp = true → Reads o .ffnGate layer ∧ Reads o .ffnUp layer
  ungated : cfg.hasGateUp = false → Reads o .ffnOnlyUp layer

/-- Every layer fills `work_ffn` before it reads it: it has routed experts, or a dense block that
finds its weights. -/
def FedAll (g : VgGguf) (cfg : ModelConfig K) (o : Outcomes) : Prop :=
  1 < cfg.nExpert ∨ ∀ l < cfg.nLayer, Fed g cfg o l

theorem gatePair_stateless (gate up : Matmul) (x : V) :
    Logged.Stateless (gatePair (cpuGraph g cfg) o ops layer gate up x : Exec V S _) := by
  unfold gatePair
  dsimp only
  rw [if_neg (by simp [cpuGraph])]
  exact (cpuMatmul_stateless gate x).bind fun _ => (cpuMatmul_stateless up x).bind fun _ => .pure _

theorem gatedStage_coupled (ho : ReadsOnly o) (hfed : Fed g cfg o layer)
    (hgate : cfg.hasGateUp = true) (x : V) : Logged.Coupled (Within same rel)
    (gatedStage (cpuGraph g cfg) o ops layer x) fun _ => Filled same rel := by
  obtain ⟨tg, hg⟩ := hfed.gate hgate
  obtain ⟨tu, hu⟩ := hfed.up
  obtain ⟨hreadGate, hreadUp⟩ := hfed.gated hgate
  unfold gatedStage
  apply Logged.Coupled.yields (allocate_yields ho)
  apply Logged.Coupled.yields (allocate_yields ho)
  rw [if_pos (Bool.and_self true)]
  apply Logged.Coupled.yields (acquireWeight_yields hg hreadGate)
  apply Logged.Coupled.yields (acquireWeight_yields hu hreadUp)
  apply Logged.Coupled.after (gatePair_stateless _ _ x)
  intro ab
  apply Logged.Coupled.modify
  exact fun s s' hs => ⟨⟨⟨hs.hidden, hs.logits, hs.kv, hs.cold, hs.cold'⟩, hs.res⟩, rfl⟩

theorem ungatedStage_coupled (hfed : Fed g cfg o layer) (hgate : cfg.hasGateUp = false) (x : V) :
    Logged.Coupled (Within same rel) (ungatedStage (cpuGraph g cfg) o ops layer x)
      fun _ => Filled same rel := by
  obtain ⟨t, hfind⟩ := hfed.up
  unfold ungatedStage ungatedUp
  apply Logged.Coupled.bind (T := fun _ => Filled same rel)
  · apply Logged.Coupled.yields (acquireWeight_yields hfind (hfed.ungated hgate))
    apply Logged.Coupled.after (dispatch_stateless _ _ _)
    intro y
    apply Logged.Coupled.modify
    exact fun s s' hs => ⟨⟨⟨hs.hidden, hs.logits, hs.kv, hs.cold, hs.cold'⟩, hs.res⟩, rfl⟩
  intro _
  apply Logged.Coupled.modify
  intro s s' hs
  refine ⟨⟨⟨hs.hidden, hs.logits, hs.kv, hs.cold, hs.cold'⟩, hs.res⟩, ?_⟩
  change ops.gelu s.ffn = ops.gelu s'.ffn
  rw [hs.ffn]

theorem ffnSubNorm_coupled : Logged.Coupled (Filled same rel)
    (ffnSubNorm (cpuGraph g cfg) o ops layer) fun _ => Filled same rel := by
  unfold ffnSubNorm
  apply Logged.Coupled.get
  · intro s s' hs
    rw [hs.ffn]
  intro w
  apply Logged.Coupled.after (shapedNorm_stateless _ _ _)
  intro y
  apply Logged.Coupled.modify
  exact fun s s' hs => ⟨⟨⟨hs.hidden, hs.logits, hs.kv, hs.cold, hs.cold'⟩, hs.res⟩, rfl⟩

theorem projectDown_coupled (t : GgufTensor) : Logged.Coupled (Filled same rel)
    (projectDown (cpuGraph g cfg) o ops layer t) fun _ => Beside same rel := by
  unfold projectDown
  apply Logged.Coupled.after allocate_stateless
  intro ready
  apply Logged.Coupled.ite
  · intro _
    apply Logged.Coupled.get
    · intro s s' hs
      rw [hs.ffn]
    intro w
    dsimp only
    apply Logged.Coupled.after (dispatch_stateless _ _ _)
    intro y
    apply Logged.Coupled.after (postNorm_stateless _ _)
    intro y
    apply Logged.Coupled.modify
    intro s s' hs
    refine ⟨?_, hs.logits, hs.kv, hs.cold, hs.cold'⟩
    change ops.add s.res y = ops.add s'.res y
    rw [hs.res]
  · intro _
    exact .pure fun s s' hs => hs.toBeside

theorem downStage_coupled : Logged.Coupled (Filled same rel)
    (downStage (cpuGraph g cfg) o ops layer) fun _ => Beside same rel := by
  unfold downStage
  apply Logged.Coupled.bind (T := fun _ => Filled same rel)
  · exact .onlyIf ffnSubNorm_coupled fun s s' hs => hs
  intro _
  apply Logged.Coupled.after (acquireWeight_stateless _)
  intro r
  cases r with
  | error st => exact .pure fun s s' hs => hs.toBeside
  | ok t => exact projectDown_coupled t

theorem denseBlock_coupled (ho : ReadsOnly o) (hfed : Fed g cfg o layer) (x : V) :
    Logged.Coupled (Within same rel) (denseBlock (cpuGraph g cfg) o ops layer x)
      fun _ => Beside same rel := by
  have hlast (kind : FfnKind) : Logged.Coupled (Filled same rel) (do
      downStage (cpuGraph g cfg) o ops layer
      Logged.log (.ffn layer kind)
      pure Status.ok) fun _ => Beside same rel := by
    apply downStage_coupled.bind
    intro _
    exact .after (.log _) fun _ => .pure fun s s' hs => hs
  unfold denseBlock
  rw [fusedFfn_cpu]
  apply Logged.Coupled.ite
  · intro hgate
    apply Logged.Coupled.yields (.pure false)
    exact (gatedStage_coupled ho hfed hgate x).bind fun _ => hlast .gated
  · intro hgate
    exact (ungatedStage_coupled hfed (Bool.not_eq_true _ ▸ hgate) x).bind fun _ => hlast .ungated

theorem routedBuffers_stateless (first count : Nat) :
    Logged.Stateless (routedBuffers o layer first count : Exec V S _) := by
  apply Logged.Stateless.foldlM
  intro ready i
  exact allocate_stateless.bind fun _ => .pure _

theorem routedExpert_stateless (tg tu td : GgufTensor) (x : V) :
    Logged.Stateless (routedExpert (cpuGraph g cfg) o ops layer tg tu td x : Exec V S _) := by
  unfold routedExpert
  dsimp only
  rw [if_neg (by simp [cpuGraph])]
  apply (cpuMatmul_stateless _ x).bind
  intro a
  apply (cpuMatmul_stateless _ x).bind
  intro b
  exact (cpuMatmul_stateless _ _).bind fun _ => .pure _

theorem routedLogits_stateless (head : Option V) (x : V) :
    Logged.Stateless (routedLogits (cpuGraph g cfg) o ops layer head x : Exec V S _) := by
  unfold routedLogits
  cases head with
  | some logits => exact .pure _
  | none =>
    apply (acquireWeight_stateless _).bind
    intro r
    cases r with
    | ok t => exact (dispatch_stateless _ _ _).bind fun _ => .pure _
    | error st => exact .pure _

theorem routedSum_stateless (logits x : V) :
    Logged.Stateless (routedSum (cpuGraph g cfg) o ops layer logits x : Exec V S _) := by
  unfold routedSum
  apply (acquireWeight_stateless _).bind
  intro r
  cases r with
  | error st => exact .pure _
  | ok tg =>
  apply (acquireWeight_stateless _).bind
  intro r
  cases r with
  | error st => exact .pure _
  | ok tu =>
  apply (acquireWeight_stateless _).bind
  intro r
  cases r with
  | error st => exact .pure _
  | ok td =>
    apply (routedBuffers_stateless _ _).bind
    intro ready
    apply Logged.Stateless.ite
    · exact (routedExpert_stateless tg tu td x).bind fun _ => .pure _
    · exact .pure _

theorem routedBlock_coupled (head : Option V) (x : V) : Logged.Coupled (Within same rel)
    (routedBlock (cpuGraph g cfg) o ops layer head x) fun _ => Beside same rel := by
  unfold routedBlock
  apply Logged.Coupled.after (.log _)
  intro _
  apply Logged.Coupled.after (routedBuffers_stateless _ _)
  intro ready
  apply Logged.Coupled.ite
  · intro _
    apply Logged.Coupled.after (routedLogits_stateless head x)
    intro logits
    apply Logged.Coupled.after (routedSum_stateless logits x)
    intro acc
    apply Logged.Coupled.bind (T := fun _ => Beside same rel)
    · apply Logged.Coupled.modify
      intro s s' hs
      refine ⟨?_, hs.logits, hs.kv, hs.cold, hs.cold'⟩
      change ops.add s.res acc = ops.add s'.res acc
      rw [hs.res]
    intro _
    exact .pure fun s s' hs => hs
  · intro _
    exact .pure fun s s' hs => hs.toBeside

theorem perOpBlock_coupled (ho : ReadsOnly o) (hfed : Fed g cfg o layer) (head : Option V) :
    Logged.Coupled (Within same rel) (perOpBlock (cpuGraph g cfg) o ops layer head)
      fun _ => Beside same rel := by
  unfold perOpBlock
  apply Logged.Coupled.get
  · intro s s' hs
    rw [hs.hidden]
  intro w
  apply Logged.Coupled.after (normalise_stateless _ _)
  intro x
  apply Logged.Coupled.bind (T := fun _ => Within same rel)
  · apply Logged.Coupled.modify
    exact fun s s' hs => ⟨⟨rfl, hs.logits, hs.kv, hs.cold, hs.cold'⟩, hs.res⟩
  intro _
  exact .ite (fun _ => routedBlock_coupled head x) fun _ => denseBlock_coupled ho hfed x

theorem ffnLayer_coupled (ho : ReadsOnly o) (hfed : FedAll g cfg o) (hl : layer < cfg.nLayer) :
    Logged.Coupled (Beside same rel) (ffnLayer (cpuGraph g cfg) o ops layer)
      fun _ => Beside same rel := by
  unfold ffnLayer
  apply Logged.Coupled.ite
  · intro _
    apply Logged.Coupled.after (.ite (.log _) (.pure _))
    intro _
    exact moeFfnLayer_coupled
  · intro hexperts
    have hfed : Fed g cfg o layer := hfed.resolve_left hexperts layer hl
    rw [headStage_cpu]
    apply Logged.Coupled.yields (.pure none)
    apply Logged.Coupled.bind (T := fun _ => Within same rel)
    · apply Logged.Coupled.modify
      exact fun s s' hs => ⟨⟨hs.hidden, hs.logits, hs.kv, hs.cold, hs.cold'⟩, hs.hidden⟩
    intro _
    rw [tailStage_cpu]
    apply Logged.Coupled.yields (.pure false)
    exact perOpBlock_coupled ho hfed none

end Layers

end VgEngine.Decode
