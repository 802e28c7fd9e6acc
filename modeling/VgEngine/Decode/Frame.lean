import VgEngine.Decode.LockstepDecode
import VgEngine.Lib.Framed

/-! The parts of a decode that leave the key and value pages alone, on any graph and whatever
fails. -/
namespace VgEngine.Decode
open Lib Bytes Gguf Model

/-- The pages, and the choice of the path. -/
def Work.stored {V S : Type} (w : Work V S) : S × Option Bool := (w.kv, w.gpuDense)

/-- A computation that stores no row. -/
abbrev Framed {V S α : Type} (m : Exec V S α) : Prop := Logged.Frames Work.stored m

theorem Framed.kv {V S α : Type} {m : Exec V S α} (h : Framed m) (s : Work V S) :
    (m s).1.2.kv = s.kv := congrArg Prod.fst (h s)

theorem Framed.gpuDense {V S α : Type} {m : Exec V S α} (h : Framed m) (s : Work V S) :
    (m s).1.2.gpuDense = s.gpuDense := congrArg Prod.snd (h s)

section Calls

variable {K : Type*} {V S : Type} {g : Graph K} {o : Outcomes} {ops : Ops V S}
variable {place : Place} {layer pos : Nat}

theorem allocate_framed {index : Nat} : Framed (allocate o place layer index : Exec V S _) :=
  allocate_stateless.frames

theorem acquireWeight_framed {index : Nat} (name : List UInt8) :
    Framed (acquireWeight g o place layer index name : Exec V S _) :=
  (acquireWeight_stateless name).frames

theorem dispatch_framed {index : Nat} (gpu : Bool) (m : Matmul) (x : V) :
    Framed (dispatch o ops place layer index gpu m x : Exec V S _) :=
  (dispatch_stateless gpu m x).frames

theorem postNorm_framed (name : List UInt8) (x : V) :
    Framed (postNorm g o ops layer place name x : Exec V S _) :=
  (postNorm_stateless name x).frames

theorem projectBuffer_stateless (old : Option V) :
    Logged.Stateless (projectBuffer o layer place old : Exec V S _) := by
  cases old with
  | none => exact allocate_stateless
  | some y => exact .pure _

theorem project_stateless (biasPlace : Place) (bias : String) (m : Matmul) (gpu : Bool)
    (old : Option V) (x : V) : Logged.Stateless
      (project g o ops layer place biasPlace bias m gpu old x : Exec V S _) := by
  unfold project
  apply (projectBuffer_stateless old).bind
  intro ready
  apply Logged.Stateless.ite _ (.pure _)
  apply (projectRows_stateless m gpu old x).bind
  intro y
  exact (addBias_stateless _ _ y).bind fun _ => .pure _

end Calls

section Attention

variable {K : Type*} {V S : Type} {g : Graph K} {o : Outcomes} {ops : Ops V S}
variable {layer pos : Nat} {τ : Type*} {view : Work V S → τ}

/-- A part of the state that the attention up to the output projection leaves alone. -/
structure Aside (view : Work V S → τ) : Prop where
  qkv : ∀ w x, view { w with qkv := x } = view w
  qkvCap : ∀ w n, view { w with qkvCap := n } = view w
  att : ∀ w x, view { w with att := x } = view w
  attCap : ∀ w n, view { w with attCap := n } = view w

theorem stored_aside : Aside (Work.stored : Work V S → S × Option Bool) :=
  ⟨fun _ _ => rfl, fun _ _ => rfl, fun _ _ => rfl, fun _ _ => rfl⟩

theorem growQkv_frames (h : Aside view) (index kvd : Nat) :
    Logged.Frames view (growQkv g o layer index kvd : Exec V S _) := by
  unfold growQkv
  apply Logged.Frames.get.bind
  intro w
  exact grow_stateless.frames.bind fun _ => .modify fun w => h.qkvCap w _

theorem queryStage_frames (h : Aside view) (tq : GgufTensor) (batch : Batch V) (x : V) :
    Logged.Frames view (queryStage g o ops layer pos tq batch x) := by
  unfold queryStage
  apply (project_stateless _ _ _ _ _ x).frames.bind
  intro r
  cases r with
  | none => exact .pure _
  | some q =>
    apply (Logged.Stateless.foldlM (fun x h => rotateHead_stateless _ _ x h) _ q).frames.bind
    intro q
    exact .modify fun w => h.qkv w q

theorem keyStage_frames (h : Aside view) (batch : Batch V) (x : V) :
    Logged.Frames view (keyStage g o ops layer pos batch x) := by
  unfold keyStage
  apply (acquireWeight_stateless _).frames.bind
  intro r
  cases r with
  | error st => exact .pure _
  | ok t =>
    apply (Logged.Frames.onlyIf (growQkv_frames h _ _)).bind
    intro _
    apply (project_stateless _ _ _ _ _ x).frames.bind
    intro r
    cases r with
    | none => exact .pure _
    | some k =>
      apply (Logged.Stateless.foldlM (fun x h => rotateHead_stateless _ _ x h) _ k).frames.bind
      intro k
      exact .pure _

theorem valueStage_frames (h : Aside view) (batch : Batch V) (kvd : Nat) (x : V) :
    Logged.Frames view (valueStage g o ops layer batch kvd x) := by
  unfold valueStage
  apply (acquireWeight_stateless _).frames.bind
  intro r
  cases r with
  | error st => exact .pure _
  | ok t =>
    apply (Logged.Frames.onlyIf (growQkv_frames h _ _)).bind
    intro _
    apply (project_stateless _ _ _ _ _ x).frames.bind
    intro v
    exact .pure _

theorem attendStage_frames (h : Aside view) (kvd : Nat) :
    Logged.Frames view (attendStage g o ops layer pos kvd) := by
  have hnorm (width : Nat) : Logged.Frames view (attentionSubNorm g o ops layer width) := by
    unfold attentionSubNorm
    apply Logged.Frames.get.bind
    intro w
    exact (shapedNorm_stateless _ _ _).frames.bind fun _ => .modify fun w => h.att w _
  unfold attendStage
  apply Logged.Frames.get.bind
  intro w
  apply grow_stateless.frames.bind
  intro cap
  apply Logged.Frames.bind
  · exact .modify fun w => h.attCap w cap
  intro _
  apply (Logged.Frames.forM (fun h => .log _) _).bind
  intro _
  apply Logged.Frames.bind
  · exact .modify fun w => h.att w _
  · exact fun _ => .onlyIf (hnorm _)

theorem outputStage_framed : Framed (outputStage g o ops layer) := by
  have hrestore : Framed (Logged.modify fun w => { w with hidden := w.res } : Exec V S Unit) :=
    .modify fun _ => rfl
  unfold outputStage
  apply Logged.Frames.ite (.pure _)
  apply Logged.Frames.ite hrestore
  apply (acquireWeight_framed _).bind
  intro r
  cases r with
  | error st => exact hrestore
  | ok t =>
    change Framed (projectOutput g o ops layer t)
    unfold projectOutput
    apply allocate_framed.bind
    intro ready
    apply Logged.Frames.ite _ (.pure _)
    apply Logged.Frames.get.bind
    intro w
    apply (dispatch_framed _ _ _).bind
    intro y
    apply (postNorm_framed _ _).bind
    intro y
    exact .modify fun _ => rfl

end Attention

section Ffn

variable {K : Type*} {V S : Type} {g : Graph K} {o : Outcomes} {ops : Ops V S} {layer : Nat}

theorem moeFfnLayer_framed : Framed (moeFfnLayer g o ops layer) := by
  have hfinish (acc : V) (shared : Bool) : Framed (finishMoe g o ops layer acc shared) := by
    unfold finishMoe
    apply (postNorm_framed _ _).bind
    intro y
    apply Logged.Frames.bind
    · exact .modify fun _ => rfl
    · exact fun _ => (Logged.Frames.log _).bind fun _ => .pure _
  unfold moeFfnLayer
  apply Logged.Frames.get.bind
  intro w
  apply Logged.Frames.bind
  · exact .modify fun _ => rfl
  intro _
  apply (normalise_stateless _ _).frames.bind
  intro xin
  apply (acquireWeight_framed _).bind
  intro r
  cases r with
  | error st => exact .pure _
  | ok t =>
  apply (mmDispatch_stateless _ _ _ _).frames.bind
  intro logits
  apply Logged.Frames.ite (.pure _)
  apply Logged.Frames.ite
  · exact (Logged.Frames.log _).bind fun _ => .pure _
  apply allocate_framed.bind
  intro ready
  apply Logged.Frames.ite _ (.pure _)
  apply Logged.Frames.bind
  · exact .modify fun _ => rfl
  intro _
  apply (runExperts_stateless _ _ _ _ _).frames.bind
  intro r
  cases r with
  | error st => exact .pure _
  | ok acc => exact (addShared_stateless xin acc).frames.bind fun acc => hfinish _ _

theorem headStage_framed : Framed (headStage g o ops layer) := by
  have hfused : Framed (fusedHead g o ops layer) := by
    unfold fusedHead
    apply Logged.Frames.get.bind
    intro w
    split
    · apply Logged.Frames.ite _ (.pure _)
      apply (Logged.Frames.log _).bind
      intro _
      apply (Logged.Frames.log _).bind
      intro _
      apply Logged.Frames.bind
      · exact .modify fun _ => rfl
      · exact fun _ => .pure _
    · exact .pure _
  have hprojection : Framed (headProjection g o ops layer) := by
    unfold headProjection
    apply (acquireWeight_framed _).bind
    intro r
    cases r with
    | error st => exact .pure _
    | ok t =>
      apply Logged.Frames.get.bind
      intro w
      exact (dispatch_framed _ _ _).bind fun _ => .pure _
  have hfallback : Framed (headFallback g o ops layer) := by
    unfold headFallback
    apply allocate_framed.bind
    intro ready
    apply Logged.Frames.ite
    · exact hprojection.bind fun y => .modify fun _ => rfl
    · exact .modify fun _ => rfl
  unfold headStage
  apply Logged.Frames.ite _ (.pure _)
  apply hfused.bind
  intro r
  cases r with
  | some logits => exact .pure _
  | none => exact hfallback.bind fun _ => .pure _

theorem tailStage_framed : Framed (tailStage g o ops layer) := by
  have hfallback (m : Matmul) : Framed (tailFallback g o ops layer m) := by
    unfold tailFallback
    apply allocate_framed.bind
    intro ready
    apply Logged.Frames.ite _ (.pure _)
    apply Logged.Frames.get.bind
    intro w
    exact (dispatch_framed _ _ _).bind fun y => .modify fun _ => rfl
  have htail (t : Tail) : Framed (layerTail g o ops layer t) := by
    unfold layerTail
    apply Logged.Frames.get.bind
    intro w
    apply Logged.Frames.ite
    · apply (Logged.Frames.forM (fun m => .log _) _).bind
      intro _
      apply Logged.Frames.bind
      · exact .modify fun _ => rfl
      · exact fun _ => (Logged.Frames.log _).bind fun _ => .pure _
    · exact (hfallback _).bind fun _ => .pure _
  unfold tailStage
  apply Logged.Frames.ite _ (.pure _)
  split
  · exact htail _
  · exact (Logged.Frames.onlyIf (.log _)).bind fun _ => .pure _

theorem routedBlock_framed (head : Option V) (x : V) : Framed (routedBlock g o ops layer head x) := by
  have hbuffers (first count : Nat) : Framed (routedBuffers o layer first count : Exec V S _) :=
    (routedBuffers_stateless first count).frames
  have hlogits : Framed (routedLogits g o ops layer head x) := by
    unfold routedLogits
    cases head with
    | some logits => exact .pure _
    | none =>
      apply (acquireWeight_framed _).bind
      intro r
      cases r with
      | ok t => exact (dispatch_framed _ _ _).bind fun _ => .pure _
      | error st => exact .pure _
  have hexpert (tg tu td : GgufTensor) : Framed (routedExpert g o ops layer tg tu td x) := by
    unfold routedExpert
    apply Logged.Frames.ite
    · exact (Logged.Frames.forM (fun m => .log _) _).bind fun _ => .pure _
    · apply (cpuMatmul_stateless _ x).frames.bind
      intro a
      apply (cpuMatmul_stateless _ x).frames.bind
      intro b
      exact (cpuMatmul_stateless _ _).frames.bind fun _ => .pure _
  have hsum (logits : V) : Framed (routedSum g o ops layer logits x) := by
    unfold routedSum
    apply (acquireWeight_framed _).bind
    intro r
    cases r with
    | error st => exact .pure _
    | ok tg =>
    apply (acquireWeight_framed _).bind
    intro r
    cases r with
    | error st => exact .pure _
    | ok tu =>
    apply (acquireWeight_framed _).bind
    intro r
    cases r with
    | error st => exact .pure _
    | ok td =>
      apply (hbuffers _ _).bind
      intro ready
      exact .ite ((hexpert tg tu td).bind fun _ => .pure _) (.pure _)
  unfold routedBlock
  apply (Logged.Frames.log _).bind
  intro _
  apply (hbuffers _ _).bind
  intro ready
  apply Logged.Frames.ite _ (.pure _)
  apply hlogits.bind
  intro logits
  apply (hsum logits).bind
  intro acc
  apply Logged.Frames.bind
  · exact .modify fun _ => rfl
  · exact fun _ => .pure _

theorem fusedFfn_framed (x : V) : Framed (fusedFfn g o ops layer x) := by
  unfold fusedFfn
  dsimp only
  split
  · apply Logged.Frames.ite _ (.pure _)
    apply (Logged.Frames.forM (fun m => .log _) _).bind
    intro _
    apply Logged.Frames.bind
    · exact .modify fun _ => rfl
    · exact fun _ => (Logged.Frames.log _).bind fun _ => .pure _
  · exact .pure _

theorem gatedStage_framed (x : V) : Framed (gatedStage g o ops layer x) := by
  have hpair (gate up : Matmul) : Framed (gatePair g o ops layer gate up x) := by
    unfold gatePair
    apply Logged.Frames.ite
    · apply (Logged.Frames.log _).bind
      intro _
      exact (Logged.Frames.log _).bind fun _ => .pure _
    · apply (cpuMatmul_stateless gate x).frames.bind
      intro a
      exact (cpuMatmul_stateless up x).frames.bind fun _ => .pure _
  unfold gatedStage
  apply allocate_framed.bind
  intro gateBuf
  apply allocate_framed.bind
  intro upBuf
  apply Logged.Frames.ite _ (.pure _)
  apply (acquireWeight_framed _).bind
  intro r
  cases r with
  | error st => exact .pure _
  | ok tg =>
  apply (acquireWeight_framed _).bind
  intro r
  cases r with
  | error st => exact .pure _
  | ok tu =>
    apply (hpair _ _).bind
    intro ab
    exact .modify fun _ => rfl

theorem ungatedStage_framed (x : V) : Framed (ungatedStage g o ops layer x) := by
  have hup : Framed (ungatedUp g o ops layer x) := by
    unfold ungatedUp
    apply (acquireWeight_framed _).bind
    intro r
    cases r with
    | error st => exact .pure _
    | ok t => exact (dispatch_framed _ _ _).bind fun y => .modify fun _ => rfl
  unfold ungatedStage
  exact hup.bind fun _ => .modify fun _ => rfl

theorem downStage_framed : Framed (downStage g o ops layer) := by
  have hnorm : Framed (ffnSubNorm g o ops layer) := by
    unfold ffnSubNorm
    apply Logged.Frames.get.bind
    intro w
    exact (shapedNorm_stateless _ _ _).frames.bind fun y => .modify fun _ => rfl
  have hproject (t : GgufTensor) : Framed (projectDown g o ops layer t) := by
    unfold projectDown
    apply allocate_framed.bind
    intro ready
    apply Logged.Frames.ite _ (.pure _)
    apply Logged.Frames.get.bind
    intro w
    apply (dispatch_framed _ _ _).bind
    intro y
    exact (postNorm_framed _ _).bind fun y => .modify fun _ => rfl
  unfold downStage
  apply (Logged.Frames.onlyIf hnorm).bind
  intro _
  apply (acquireWeight_framed _).bind
  intro r
  cases r with
  | error st => exact .pure _
  | ok t => exact hproject t

theorem denseBlock_framed (x : V) : Framed (denseBlock g o ops layer x) := by
  unfold denseBlock
  apply Logged.Frames.ite
  · apply (fusedFfn_framed x).bind
    intro done
    apply Logged.Frames.ite (.pure _)
    apply (gatedStage_framed x).bind
    intro _
    apply downStage_framed.bind
    intro _
    exact (Logged.Frames.log _).bind fun _ => .pure _
  · apply (ungatedStage_framed x).bind
    intro _
    apply downStage_framed.bind
    intro _
    exact (Logged.Frames.log _).bind fun _ => .pure _

theorem ffnLayer_framed : Framed (ffnLayer g o ops layer) := by
  have hblock (head : Option V) : Framed (perOpBlock g o ops layer head) := by
    unfold perOpBlock
    apply Logged.Frames.get.bind
    intro w
    apply (normalise_stateless _ _).frames.bind
    intro x
    apply Logged.Frames.bind
    · exact .modify fun _ => rfl
    · exact fun _ => .ite (routedBlock_framed head x) (denseBlock_framed x)
  unfold ffnLayer
  apply Logged.Frames.ite
  · exact (Logged.Frames.onlyIf (.log _)).bind fun _ => moeFfnLayer_framed
  · apply headStage_framed.bind
    intro head
    apply Logged.Frames.bind
    · exact .modify fun _ => rfl
    intro _
    apply tailStage_framed.bind
    intro done
    exact .ite (.pure _) (hblock head)

end Ffn

section Head

variable {K : Type*} {V S : Type} {g : Graph K} {o : Outcomes} {ops : Ops V S}

theorem outputHead_framed : Framed (outputHead g o ops) := by
  have hrows (name : List UInt8) (t : GgufTensor) (r : HeadRows) :
      Framed (headRows g o ops name t r) := by
    unfold headRows
    apply (Logged.Frames.forM (fun i => ?_) _).bind
    · exact fun _ => .modify fun _ => rfl
    · unfold headBatch
      exact (Logged.Frames.log _).bind fun _ => .onlyIf (.log _)
  have hhost (name : List UInt8) (t : GgufTensor) : Framed (hostHead g o ops name t) := by
    unfold hostHead
    split
    · exact .log _
    · apply allocate_framed.bind
      intro ready
      exact .ite (hrows _ _ _) (.pure _)
  unfold outputHead
  apply Logged.Frames.get.bind
  intro w
  apply (normalise_stateless _ _).frames.bind
  intro x
  apply Logged.Frames.bind
  · exact .modify fun _ => rfl
  intro _
  split
  · exact (Logged.Frames.log _).bind fun _ => .modify fun _ => rfl
  · apply Logged.Frames.ite _ (hhost _ _)
    exact (Logged.Frames.log _).bind fun _ => .modify fun _ => rfl

variable [Field K] [LinearOrder K]

theorem finish_framed : Framed (finish g ops) := by
  unfold finish
  apply Logged.Frames.bind
  · exact .onlyIf (.modify fun _ => rfl)
  · exact fun _ => .pure _

end Head

end VgEngine.Decode
