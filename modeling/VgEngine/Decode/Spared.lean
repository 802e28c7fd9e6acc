import VgEngine.Decode.Decode

/-! Two runs of a decode, one under its outcomes and one in which no call fails that has no
other path: they are the same up to the first failure. -/
namespace VgEngine.Decode
open Lib Bytes Gguf Model

/-- The calls of a device path, whose failure leads to another path. -/
def Call.falls (c : Call) : Bool :=
  match c.use, c.place with
  | .device, _ => true
  | _, .batchQ | _, .batchK | _, .batchV => true
  | _, .headLogits | _, .headOutput | _, .headNorm | _, .headRouter => true
  | _, .tailOutput | _, .tailNorm | _, .tailGate | _, .tailUp | _, .tailDown => true
  | _, .fusedGate | _, .fusedUp | _, .fusedDown => true
  | _, .dense | _, .denseHead => true
  | _, _ => false

/-- The same outcomes, but no call fails that has no other path. -/
def Outcomes.spared (o : Outcomes) : Outcomes := fun c => if c.falls then o c else .ok

/-- The entry is a call or a product that failed, or a product that was left out. -/
def Event.failed : Event → Bool
  | .call _ failed => failed
  | .skipped _ _ => true
  | .refused _ => true
  | .matmul _ _ status => status ≠ .ok
  | .ffn _ _ => false

/-- The entry failed, or would fail under other outcomes. -/
def Event.fails (o : Outcomes) : Event → Bool
  | .call c failed => failed || o c ≠ .ok
  | e => e.failed

/-- A run under the outcomes next to one in which no call fails that has no other path. -/
abbrev Spares {V S α : Type} (o : Outcomes) (m m' : Exec V S α) : Prop :=
  Logged.Follows (fun e => e.failed = true) (fun e => e.fails o = true) m m'

section Spares

variable {K : Type*} {V S : Type} {g : Graph K} {o : Outcomes} {ops : Ops V S}
variable {place : Place} {layer index : Nat}

theorem spared_falls {c : Call} (h : c.falls = true) : o.spared c = o c := by
  rw [Outcomes.spared, if_pos h]

theorem spared_ok {c : Call} (h : c.falls = false) : o.spared c = .ok := by
  rw [Outcomes.spared, h, if_neg Bool.false_ne_true]

/-- A call that is logged with its outcome, and what is made of the outcome. -/
theorem logged_spares {α : Type} {c : Call} (h : c.falls = false) (f : Status → α) :
    Spares (V := V) (S := S) o
      (do Logged.log (.call c (o c ≠ .ok)); pure (f (o c)))
      (do Logged.log (.call c (o.spared c ≠ .ok)); pure (f (o.spared c))) := by
  intro s
  rw [spared_ok h]
  by_cases hok : o c = .ok
  · left
    rw [hok]
  · right
    constructor
    · exact ⟨_, List.mem_singleton_self _, by simpa [Event.failed] using hok⟩
    · exact ⟨_, List.mem_singleton_self _, by simpa [Event.fails] using hok⟩

theorem acquireWeight_spares (h : (⟨place, .acquire, layer, index⟩ : Call).falls = false)
    (name : List UInt8) : Spares (V := V) (S := S) o (acquireWeight g o place layer index name)
      (acquireWeight g o.spared place layer index name) := by
  unfold acquireWeight
  cases find g.file name with
  | none => exact Logged.Follows.refl _
  | some t => exact logged_spares h fun st => if st = Status.ok then Except.ok t else Except.error st

theorem acquireOptional_spares (h : (⟨place, .acquire, layer, index⟩ : Call).falls = false)
    (name : List UInt8) : Spares (V := V) (S := S) o
      (acquireOptional g o place layer index name)
      (acquireOptional g o.spared place layer index name) := by
  unfold acquireOptional
  cases find g.file name with
  | none => exact Logged.Follows.refl _
  | some t => exact logged_spares h fun st => if st = Status.ok then some t else none

theorem allocate_spares (h : (⟨place, .buffer, layer, index⟩ : Call).falls = false) :
    Spares (V := V) (S := S) o (allocate o place layer index)
      (allocate o.spared place layer index) :=
  logged_spares h fun st => decide (st = Status.ok)

theorem cpuMatmul_spares (h : (⟨place, .rows, layer, index⟩ : Call).falls = false) (m : Matmul)
    (x : V) : Spares (S := S) o (cpuMatmul o ops place layer index m x)
      (cpuMatmul o.spared ops place layer index m x) := by
  unfold cpuMatmul
  refine (Logged.Follows.refl _).bind fun _ => ?_
  refine .ite (.refl _) (.ite (.refl _) ?_)
  exact logged_spares h fun st => (Status.ok, if st = Status.ok then ops.matmul m x else ops.junk)

theorem dispatch_spares (h : (⟨place, .rows, layer, index⟩ : Call).falls = false) (gpu : Bool)
    (m : Matmul) (x : V) : Spares (S := S) o (dispatch o ops place layer index gpu m x)
      (dispatch o.spared ops place layer index gpu m x) := by
  unfold dispatch
  rw [spared_falls rfl]
  exact .ite (.refl _) (cpuMatmul_spares h m x)

theorem grow_spares (h : (⟨place, .buffer, layer, index⟩ : Call).falls = false) (need cap : Nat) :
    Spares (V := V) (S := S) o (grow o place layer index need cap)
      (grow o.spared place layer index need cap) := by
  unfold grow
  exact .ite ((allocate_spares h).bind fun _ => .refl _) (.refl _)

theorem works_spared {use : Use} (h : (⟨place, use, layer, 0⟩ : Call).falls = true) :
    works o.spared layer place use = works o layer place use := by
  unfold works
  rw [spared_falls h]

theorem normalise_spares (h : (⟨place, .acquire, layer, 0⟩ : Call).falls = false)
    (name : List UInt8) (x : V) : Spares (S := S) o (normalise g o ops layer place name x)
      (normalise g o.spared ops layer place name x) := by
  unfold normalise
  exact (acquireWeight_spares h name).bind fun _ => .refl _

theorem shapedNorm_spares (h : (⟨place, .acquire, layer, 0⟩ : Call).falls = false)
    (name : List UInt8) (width : Nat) (x : V) :
    Spares (S := S) o (shapedNorm g o ops layer place name width x)
      (shapedNorm g o.spared ops layer place name width x) := by
  unfold shapedNorm
  exact (acquireOptional_spares h name).bind fun _ => .refl _

theorem addBias_spares (h : (⟨place, .acquire, layer, 0⟩ : Call).falls = false)
    (name : List UInt8) (width : Nat) (x : V) :
    Spares (S := S) o (addBias g o ops layer place name width x)
      (addBias g o.spared ops layer place name width x) := by
  unfold addBias
  exact .ite ((acquireOptional_spares h name).bind fun _ => .refl _) (.refl _)

theorem rotateHead_spares {pos : Nat} {name : List UInt8} {width : Nat}
    (h : ∀ i, (⟨place, .acquire, layer, i⟩ : Call).falls = false) (x : V) (i : Nat) :
    Spares (S := S) o (rotateHead g o ops layer pos place name width x i)
      (rotateHead g o.spared ops layer pos place name width x i) := by
  unfold rotateHead
  exact (acquireOptional_spares (h i) name).bind fun _ => .refl _

theorem batchProjections_spared (tq : GgufTensor) (qdim : Nat) (x : V) :
    (batchProjections g o.spared ops layer tq qdim x : Exec V S (Batch V)) =
      batchProjections g o ops layer tq qdim x := rfl

end Spares

section Attention

variable {K : Type*} {V S : Type} {g : Graph K} {o : Outcomes} {ops : Ops V S}
variable {layer pos : Nat}

theorem project_spares {place biasPlace : Place} {bias : String}
    (hacquire : (⟨biasPlace, .acquire, layer, 0⟩ : Call).falls = false)
    (hbuffer : (⟨place, .buffer, layer, 0⟩ : Call).falls = false)
    (hrows : (⟨place, .rows, layer, 0⟩ : Call).falls = false) (m : Matmul) (gpu : Bool)
    (old : Option V) (x : V) :
    Spares (S := S) o (project g o ops layer place biasPlace bias m gpu old x)
      (project g o.spared ops layer place biasPlace bias m gpu old x) := by
  have hready : Spares (V := V) (S := S) o (projectBuffer o layer place old)
      (projectBuffer o.spared layer place old) := by
    cases old with
    | some y => exact .refl _
    | none => exact allocate_spares hbuffer
  have hproduct : Spares (S := S) o (projectRows g o ops layer place m gpu old x)
      (projectRows g o.spared ops layer place m gpu old x) := by
    unfold projectRows
    exact .ite (.refl _) ((dispatch_spares hrows _ m x).bind fun _ => .refl _)
  unfold project
  refine hready.bind fun _ => .ite ?_ (.refl _)
  refine hproduct.bind fun y => ?_
  exact (addBias_spares hacquire _ _ y).bind fun _ => .refl _

theorem queryStage_spares (tq : GgufTensor) (batch : Batch V) (x : V) :
    Spares (S := S) o (queryStage g o ops layer pos tq batch x)
      (queryStage g o.spared ops layer pos tq batch x) := by
  unfold queryStage
  refine (project_spares rfl rfl rfl _ _ _ x).bind fun q => ?_
  cases q with
  | none => exact .refl _
  | some q =>
    refine Logged.Follows.bind ?_ fun _ => .refl _
    exact .foldlM (fun y i => rotateHead_spares (fun _ => rfl) y i) _ q

theorem growQkv_spares (index kvd : Nat) :
    Spares (V := V) (S := S) o (growQkv g o layer index kvd)
      (growQkv g o.spared layer index kvd) := by
  unfold growQkv
  refine (Logged.Follows.refl _).bind fun w => ?_
  exact (grow_spares rfl _ _).bind fun _ => .refl _

theorem keyStage_spares (batch : Batch V) (x : V) :
    Spares (S := S) o (keyStage g o ops layer pos batch x)
      (keyStage g o.spared ops layer pos batch x) := by
  unfold keyStage
  refine (acquireWeight_spares rfl _).bind fun r => ?_
  cases r with
  | error st => exact .refl _
  | ok t =>
    refine Logged.Follows.bind (.onlyIf (growQkv_spares _ _)) fun _ => ?_
    refine (project_spares rfl rfl rfl _ _ _ x).bind fun k => ?_
    cases k with
    | none => exact .refl _
    | some k =>
      refine Logged.Follows.bind ?_ fun _ => .refl _
      exact .foldlM (fun y i => rotateHead_spares (fun _ => rfl) y i) _ k

theorem valueStage_spares (batch : Batch V) (kvd : Nat) (x : V) :
    Spares (S := S) o (valueStage g o ops layer batch kvd x)
      (valueStage g o.spared ops layer batch kvd x) := by
  unfold valueStage
  refine (acquireWeight_spares rfl _).bind fun r => ?_
  cases r with
  | error st => exact .refl _
  | ok t =>
    refine Logged.Follows.bind (.onlyIf (growQkv_spares _ _)) fun _ => ?_
    exact (project_spares rfl rfl rfl _ _ _ x).bind fun _ => .refl _

theorem storeRow_spares (k v : Option V) (kvd : Nat) :
    Spares o (storeRow g o ops layer pos k v kvd)
      (storeRow g o.spared ops layer pos k v kvd) := by
  have hpage : Spares o (addPage o ops layer pos kvd) (addPage o.spared ops layer pos kvd) := by
    unfold addPage
    refine (Logged.Follows.refl _).bind fun w => .ite ?_ (.refl _)
    refine (allocate_spares rfl).bind fun keys => ?_
    exact (allocate_spares rfl).bind fun values => .refl _
  unfold storeRow
  refine (Logged.Follows.refl _).bind fun _ => .ite ?_ (.refl _)
  exact hpage.bind fun _ => .refl _

theorem attentionSubNorm_spares (width : Nat) : Spares o (attentionSubNorm g o ops layer width)
    (attentionSubNorm g o.spared ops layer width) := by
  unfold attentionSubNorm
  refine (Logged.Follows.refl _).bind fun w => ?_
  exact (shapedNorm_spares rfl _ _ _).bind fun _ => .refl _

theorem attendHeads_spares (kvd width : Nat) (scored : Nat → Bool) :
    Spares o (attendHeads g o ops layer pos kvd width scored)
      (attendHeads g o.spared ops layer pos kvd width scored) := by
  unfold attendHeads
  refine (Logged.Follows.refl _).bind fun _ => ?_
  exact .onlyIf (attentionSubNorm_spares _)

/-- A head without a score buffer is logged, so the heads agree or both runs have a failure. -/
theorem scores_spares (kvd width : Nat) :
    Spares o
      (do
        (List.range g.cfg.nHead).forM (scoreBuffer o layer)
        attendHeads g o ops layer pos kvd width (scored g o layer))
      (do
        (List.range g.cfg.nHead).forM (scoreBuffer o.spared layer)
        attendHeads g o.spared ops layer pos kvd width (scored g o.spared layer)) := by
  have hspared (h : Nat) : o.spared ⟨.scores, .buffer, layer, h⟩ = .ok := spared_ok rfl
  by_cases hall : ∀ h < g.cfg.nHead, o ⟨.scores, .buffer, layer, h⟩ = .ok
  · have heq : scored g o layer = scored g o.spared layer := by
      funext h
      unfold scored
      rw [hspared]
      by_cases hh : h < g.cfg.nHead
      · rw [hall h hh]
      · simp [hh]
    rw [heq]
    refine Logged.Follows.bind (.forM (fun h => ?_) _) fun _ => attendHeads_spares _ _ _
    exact logged_spares (c := ⟨.scores, .buffer, layer, h⟩) rfl fun _ => ()
  · push Not at hall
    obtain ⟨h, hh, hfails⟩ := hall
    apply Logged.Follows.of_bad
    · intro s
      refine ⟨.call ⟨.scores, .buffer, layer, h⟩ true, ?_, rfl⟩
      apply Logged.mem_forM_log (List.mem_range.2 hh)
      intro s
      simp [scoreBuffer, hfails]
    · intro s
      refine ⟨.call ⟨.scores, .buffer, layer, h⟩ false, ?_, by simpa [Event.fails] using hfails⟩
      apply Logged.mem_forM_log (List.mem_range.2 hh)
      intro s
      simp [scoreBuffer, hspared]

theorem attendStage_spares (kvd : Nat) :
    Spares o (attendStage g o ops layer pos kvd) (attendStage g o.spared ops layer pos kvd) := by
  unfold attendStage
  refine (Logged.Follows.refl _).bind fun w => ?_
  refine (grow_spares rfl _ _).bind fun cap => ?_
  exact (Logged.Follows.refl _).bind fun _ => scores_spares _ _

theorem postNorm_spares {place : Place} (h : (⟨place, .acquire, layer, 0⟩ : Call).falls = false)
    (name : List UInt8) (x : V) : Spares (S := S) o (postNorm g o ops layer place name x)
      (postNorm g o.spared ops layer place name x) := by
  unfold postNorm
  exact .ite (shapedNorm_spares h _ _ _) (.refl _)

theorem projectOutput_spares (t : GgufTensor) :
    Spares o (projectOutput g o ops layer t) (projectOutput g o.spared ops layer t) := by
  unfold projectOutput
  refine (allocate_spares rfl).bind fun ready => .ite ?_ (.refl _)
  refine (Logged.Follows.refl _).bind fun w => ?_
  refine (dispatch_spares rfl _ _ _).bind fun y => ?_
  exact (postNorm_spares rfl _ _).bind fun _ => .refl _

theorem outputStage_spares :
    Spares o (outputStage g o ops layer) (outputStage g o.spared ops layer) := by
  unfold outputStage
  refine .ite (.refl _) (.ite (.refl _) ?_)
  refine (acquireWeight_spares rfl _).bind fun r => ?_
  cases r with
  | error st => exact .refl _
  | ok t => exact projectOutput_spares t

theorem attentionLayer_spares :
    Spares o (attentionLayer g o ops layer pos) (attentionLayer g o.spared ops layer pos) := by
  unfold attentionLayer
  refine (Logged.Follows.refl _).bind fun w => ?_
  refine (Logged.Follows.refl _).bind fun _ => ?_
  refine (normalise_spares rfl _ _).bind fun x => ?_
  refine (Logged.Follows.refl _).bind fun _ => ?_
  refine (acquireWeight_spares rfl _).bind fun r => ?_
  cases r with
  | error st => exact .refl _
  | ok tq =>
    refine (growQkv_spares _ _).bind fun _ => ?_
    rw [batchProjections_spared]
    refine (Logged.Follows.refl _).bind fun batch => ?_
    refine (queryStage_spares _ _ _).bind fun _ => ?_
    refine (keyStage_spares _ _).bind fun k => ?_
    refine (valueStage_spares _ _ _).bind fun v => ?_
    refine (storeRow_spares _ _ _).bind fun _ => ?_
    exact (attendStage_spares _).bind fun _ => outputStage_spares

end Attention

section Ffn

variable {K : Type*} {V S : Type} {g : Graph K} {o : Outcomes} {ops : Ops V S} {layer : Nat}

theorem acquireExpert_spares {place : Place} {index : Nat} {kind : String}
    (hacquire : (⟨place, .acquire, layer, index⟩ : Call).falls = false)
    (hbuffer : (⟨place, .buffer, layer, index⟩ : Call).falls = false) (expert out inDim : Nat) :
    Spares (V := V) (S := S) o (acquireExpert g o layer place index kind expert out inDim)
      (acquireExpert g o.spared layer place index kind expert out inDim) := by
  unfold acquireExpert
  refine (acquireWeight_spares hacquire _).bind fun r => ?_
  cases r with
  | error st => exact .refl _
  | ok t => exact .ite (.refl _) ((allocate_spares hbuffer).bind fun _ => .refl _)

theorem runExpert_spares (logits xin : V) (ids : List Nat) (index expert : Nat) (acc : V) :
    Spares (S := S) o (runExpert g o ops layer logits xin ids index expert acc)
      (runExpert g o.spared ops layer logits xin ids index expert acc) := by
  unfold runExpert
  refine (acquireExpert_spares rfl rfl _ _ _).bind fun gate => ?_
  cases gate with
  | error st => exact .refl _
  | ok gate =>
  refine (acquireExpert_spares rfl rfl _ _ _).bind fun up => ?_
  cases up with
  | error st => exact .refl _
  | ok up =>
  refine (dispatch_spares rfl _ _ _).bind fun a => .ite (.refl _) ?_
  refine (dispatch_spares rfl _ _ _).bind fun b => .ite (.refl _) ?_
  refine (acquireExpert_spares rfl rfl _ _ _).bind fun down => ?_
  cases down with
  | error st => exact .refl _
  | ok down => exact (dispatch_spares rfl _ _ _).bind fun y => .refl _

theorem runExperts_spares (logits xin : V) (ids : List Nat) (rest : List (Nat × Nat)) (acc : V) :
    Spares (S := S) o (runExperts g o ops layer logits xin ids rest acc)
      (runExperts g o.spared ops layer logits xin ids rest acc) := by
  induction rest generalizing acc with
  | nil => exact .refl _
  | cons e rest ih =>
    refine (runExpert_spares logits xin ids e.2 e.1 acc).bind fun r => ?_
    cases r with
    | error st => exact .refl _
    | ok acc => exact ih acc

theorem runShared_spares (xin acc : V) : Spares (S := S) o (runShared g o ops layer xin acc)
    (runShared g o.spared ops layer xin acc) := by
  have hgate : Spares (V := V) (S := S) o (sharedGate g o layer)
      (sharedGate g o.spared layer) := by
    unfold sharedGate
    exact (acquireOptional_spares rfl _).bind fun _ => .refl _
  unfold runShared
  refine hgate.bind fun gate => ?_
  refine (acquireWeight_spares rfl _).bind fun tg => ?_
  cases tg with
  | error st => exact .refl _
  | ok tg =>
  refine (acquireWeight_spares rfl _).bind fun tu => ?_
  cases tu with
  | error st => exact .refl _
  | ok tu =>
  refine (dispatch_spares rfl _ _ _).bind fun a => .ite (.refl _) ?_
  refine (dispatch_spares rfl _ _ _).bind fun b => .ite (.refl _) ?_
  refine (acquireWeight_spares rfl _).bind fun td => ?_
  cases td with
  | error st => exact .refl _
  | ok td => exact (dispatch_spares rfl _ _ _).bind fun y => .refl _

theorem moeFfnLayer_spares :
    Spares o (moeFfnLayer g o ops layer) (moeFfnLayer g o.spared ops layer) := by
  unfold moeFfnLayer
  refine (Logged.Follows.refl _).bind fun w => ?_
  refine (Logged.Follows.refl _).bind fun _ => ?_
  refine (normalise_spares rfl _ _).bind fun xin => ?_
  refine (acquireWeight_spares rfl _).bind fun t => ?_
  cases t with
  | error st => exact .refl _
  | ok t =>
  refine (dispatch_spares rfl _ _ _).bind fun logits => .ite (.refl _) (.ite (.refl _) ?_)
  refine (allocate_spares rfl).bind fun ready => .ite ?_ (.refl _)
  refine (Logged.Follows.refl _).bind fun _ => ?_
  refine (runExperts_spares _ _ _ _ _).bind fun acc => ?_
  cases acc with
  | error st => exact .refl _
  | ok acc =>
  refine Logged.Follows.bind (.ite (runShared_spares _ _) (.refl _)) fun acc => ?_
  unfold finishMoe
  exact (postNorm_spares rfl _ _).bind fun _ => .refl _

theorem headStage_spares :
    Spares o (headStage g o ops layer) (headStage g o.spared ops layer) := by
  have hhead : fusedHead g o.spared ops layer = fusedHead g o ops layer := rfl
  have hprojection : Spares o (headProjection g o ops layer)
      (headProjection g o.spared ops layer) := by
    unfold headProjection
    refine (acquireWeight_spares rfl _).bind fun r => ?_
    cases r with
    | error st => exact .refl _
    | ok t =>
      refine (Logged.Follows.refl _).bind fun w => ?_
      exact (dispatch_spares rfl _ _ _).bind fun _ => .refl _
  have hfallback : Spares o (headFallback g o ops layer) (headFallback g o.spared ops layer) := by
    unfold headFallback
    refine (allocate_spares rfl).bind fun ready => .ite ?_ (.refl _)
    exact hprojection.bind fun _ => .refl _
  unfold headStage
  rw [hhead]
  refine .ite ((Logged.Follows.refl _).bind fun r => ?_) (.refl _)
  cases r with
  | some logits => exact .refl _
  | none => exact hfallback.bind fun _ => .refl _

theorem tailStage_spares :
    Spares o (tailStage g o ops layer) (tailStage g o.spared ops layer) := by
  have htensors : tailTensors g o.spared layer = tailTensors g o layer := rfl
  have hruns (t : Tail) : tailRuns g o.spared layer t = tailRuns g o layer t := rfl
  have hfallback (m : Matmul) : Spares o (tailFallback g o ops layer m)
      (tailFallback g o.spared ops layer m) := by
    unfold tailFallback
    refine (allocate_spares rfl).bind fun ready => .ite ?_ (.refl _)
    refine (Logged.Follows.refl _).bind fun w => ?_
    exact (dispatch_spares rfl _ _ _).bind fun _ => .refl _
  unfold tailStage
  rw [htensors]
  refine .ite ?_ (.refl _)
  cases tailTensors g o layer with
  | none => exact .refl _
  | some t =>
    unfold layerTail
    refine (Logged.Follows.refl _).bind fun w => ?_
    rw [hruns]
    exact .ite (.refl _) ((hfallback _).bind fun _ => .refl _)

theorem routedBuffers_spares (first count : Nat) :
    Spares (V := V) (S := S) o (routedBuffers o layer first count)
      (routedBuffers o.spared layer first count) :=
  .foldlM (fun _ _ => (allocate_spares rfl).bind fun _ => .refl _) _ _

theorem routedExpert_spares (tg tu td : GgufTensor) (x : V) :
    Spares (S := S) o (routedExpert g o ops layer tg tu td x)
      (routedExpert g o.spared ops layer tg tu td x) := by
  unfold routedExpert
  rw [works_spared rfl]
  refine .ite (.refl _) ?_
  refine (cpuMatmul_spares rfl _ _).bind fun a => ?_
  refine (cpuMatmul_spares rfl _ _).bind fun b => ?_
  exact (cpuMatmul_spares rfl _ _).bind fun y => .refl _

theorem routedBlock_spares (head : Option V) (x : V) :
    Spares o (routedBlock g o ops layer head x) (routedBlock g o.spared ops layer head x) := by
  have hlogits : Spares (S := S) o (routedLogits g o ops layer head x)
      (routedLogits g o.spared ops layer head x) := by
    unfold routedLogits
    cases head with
    | some logits => exact .refl _
    | none =>
      refine (acquireWeight_spares rfl _).bind fun r => ?_
      cases r with
      | error st => exact .refl _
      | ok t => exact (dispatch_spares rfl _ _ _).bind fun _ => .refl _
  have hsum (logits : V) : Spares (S := S) o (routedSum g o ops layer logits x)
      (routedSum g o.spared ops layer logits x) := by
    unfold routedSum
    refine (acquireWeight_spares rfl _).bind fun tg => ?_
    cases tg with
    | error st => exact .refl _
    | ok tg =>
    refine (acquireWeight_spares rfl _).bind fun tu => ?_
    cases tu with
    | error st => exact .refl _
    | ok tu =>
    refine (acquireWeight_spares rfl _).bind fun td => ?_
    cases td with
    | error st => exact .refl _
    | ok td =>
    refine (routedBuffers_spares _ _).bind fun ready => .ite ?_ (.refl _)
    exact (routedExpert_spares _ _ _ _).bind fun _ => .refl _
  unfold routedBlock
  refine (Logged.Follows.refl _).bind fun _ => ?_
  refine (routedBuffers_spares _ _).bind fun ready => .ite ?_ (.refl _)
  refine hlogits.bind fun logits => ?_
  exact (hsum logits).bind fun _ => .refl _

theorem gatedStage_spares (x : V) :
    Spares o (gatedStage g o ops layer x) (gatedStage g o.spared ops layer x) := by
  have hpair (gate up : Matmul) : Spares (S := S) o (gatePair g o ops layer gate up x)
      (gatePair g o.spared ops layer gate up x) := by
    unfold gatePair
    rw [works_spared rfl]
    refine .ite (.refl _) ?_
    refine (cpuMatmul_spares rfl _ _).bind fun a => ?_
    exact (cpuMatmul_spares rfl _ _).bind fun b => .refl _
  unfold gatedStage
  refine (allocate_spares rfl).bind fun gateBuf => ?_
  refine (allocate_spares rfl).bind fun upBuf => .ite ?_ (.refl _)
  refine (acquireWeight_spares rfl _).bind fun tg => ?_
  cases tg with
  | error st => exact .refl _
  | ok tg =>
  refine (acquireWeight_spares rfl _).bind fun tu => ?_
  cases tu with
  | error st => exact .refl _
  | ok tu => exact (hpair _ _).bind fun _ => .refl _

theorem ungatedStage_spares (x : V) :
    Spares o (ungatedStage g o ops layer x) (ungatedStage g o.spared ops layer x) := by
  have hup : Spares o (ungatedUp g o ops layer x) (ungatedUp g o.spared ops layer x) := by
    unfold ungatedUp
    refine (acquireWeight_spares rfl _).bind fun r => ?_
    cases r with
    | error st => exact .refl _
    | ok t => exact (dispatch_spares rfl _ _ _).bind fun _ => .refl _
  exact hup.bind fun _ => .refl _

theorem downStage_spares :
    Spares o (downStage g o ops layer) (downStage g o.spared ops layer) := by
  have hnorm : Spares o (ffnSubNorm g o ops layer) (ffnSubNorm g o.spared ops layer) := by
    unfold ffnSubNorm
    refine (Logged.Follows.refl _).bind fun w => ?_
    exact (shapedNorm_spares rfl _ _ _).bind fun _ => .refl _
  have hdown (t : GgufTensor) : Spares o (projectDown g o ops layer t)
      (projectDown g o.spared ops layer t) := by
    unfold projectDown
    refine (allocate_spares rfl).bind fun ready => .ite ?_ (.refl _)
    refine (Logged.Follows.refl _).bind fun w => ?_
    refine (dispatch_spares rfl _ _ _).bind fun y => ?_
    exact (postNorm_spares rfl _ _).bind fun _ => .refl _
  unfold downStage
  refine (Logged.Follows.onlyIf hnorm).bind fun _ => ?_
  refine (acquireWeight_spares rfl _).bind fun r => ?_
  cases r with
  | error st => exact .refl _
  | ok t => exact hdown t

theorem denseBlock_spares (x : V) :
    Spares o (denseBlock g o ops layer x) (denseBlock g o.spared ops layer x) := by
  have hfused : fusedFfn g o.spared ops layer x = fusedFfn g o ops layer x := rfl
  unfold denseBlock
  rw [hfused]
  refine .ite ((Logged.Follows.refl _).bind fun done => .ite (.refl _) ?_) ?_
  · refine (gatedStage_spares x).bind fun _ => ?_
    exact downStage_spares.bind fun _ => .refl _
  · refine (ungatedStage_spares x).bind fun _ => ?_
    exact downStage_spares.bind fun _ => .refl _

theorem ffnLayer_spares : Spares o (ffnLayer g o ops layer) (ffnLayer g o.spared ops layer) := by
  have hblock (head : Option V) : Spares o (perOpBlock g o ops layer head)
      (perOpBlock g o.spared ops layer head) := by
    unfold perOpBlock
    refine (Logged.Follows.refl _).bind fun w => ?_
    refine (normalise_spares rfl _ _).bind fun x => ?_
    refine (Logged.Follows.refl _).bind fun _ => ?_
    exact .ite (routedBlock_spares head x) (denseBlock_spares x)
  unfold ffnLayer
  refine .ite ((Logged.Follows.refl _).bind fun _ => moeFfnLayer_spares) ?_
  refine headStage_spares.bind fun head => ?_
  refine (Logged.Follows.refl _).bind fun _ => ?_
  exact tailStage_spares.bind fun done => .ite (.refl _) (hblock head)

end Ffn

section Decode

variable {K : Type*} {V S : Type} {g : Graph K} {o : Outcomes} {ops : Ops V S}

theorem modelGraphEmbed_spares (token : Int) :
    Spares o (modelGraphEmbed g o ops token) (modelGraphEmbed g o.spared ops token) := by
  unfold modelGraphEmbed
  refine .ite (.refl _) ?_
  cases find g.file (txt "token_embd.weight") with
  | none => exact .refl _
  | some t =>
  dsimp only
  cases quantInfo t.ggmlType with
  | none => exact .refl _
  | some q =>
  refine (allocate_spares rfl).bind fun ready => .ite (.ite (.refl _) ?_) (.refl _)
  have hspared : o.spared ⟨.embedding, .acquire, 0, 0⟩ = .ok := spared_ok rfl
  by_cases hok : o ⟨.embedding, .acquire, 0, 0⟩ = .ok
  · rw [hspared, hok]
    exact .refl _
  · apply Logged.Follows.of_bad
    · intro s
      exact ⟨_, List.mem_singleton_self _, by simpa [Event.failed] using hok⟩
    · intro s
      exact ⟨_, List.mem_singleton_self _, by simp [Event.fails, hok]⟩

theorem reads_spared {r : HeadRows} {t : GgufTensor} {v : Nat}
    (hok : o ⟨.outputHead, .acquire, 0, v⟩ = .ok) : r.reads g o.spared t v = r.reads g o t v := by
  unfold HeadRows.reads
  rw [hok, spared_ok rfl]

theorem headBatch_spares (name : List UInt8) (t : GgufTensor) (r : HeadRows) (i : Nat) :
    Spares (V := V) (S := S) o (headBatch g o name t r i)
      (headBatch g o.spared name t r i) := by
  unfold headBatch
  dsimp only
  by_cases hok : o ⟨.outputHead, .acquire, 0, i * r.batch⟩ = .ok
  · rw [reads_spared hok]
    exact .refl _
  · apply Logged.Follows.of_bad
    · intro s
      exact ⟨_, List.mem_singleton_self _, by simp [Event.failed, HeadRows.reads, hok]⟩
    · intro s
      exact ⟨_, List.mem_singleton_self _, by simp [Event.fails, hok]⟩

/-- A batch that is not read is logged, so the rows agree or both runs have a failure. -/
theorem headRows_spares (name : List UInt8) (t : GgufTensor) {r : HeadRows} (hr : 0 < r.batch) :
    Spares o (headRows g o ops name t r) (headRows g o.spared ops name t r) := by
  unfold headRows
  by_cases hall : ∀ i < (g.cfg.nVocab + r.batch - 1) / r.batch,
      o ⟨.outputHead, .acquire, 0, i * r.batch⟩ = .ok
  · have hrows (v : Nat) (hv : v < g.cfg.nVocab) :
        r.reads g o.spared t (v / r.batch * r.batch) = r.reads g o t (v / r.batch * r.batch) := by
      apply reads_spared
      apply hall
      rw [Nat.lt_iff_add_one_le, Nat.le_div_iff_mul_le hr, Nat.add_mul, Nat.one_mul]
      have := Nat.div_mul_le_self v r.batch
      omega
    refine Logged.Follows.bind (.forM (headBatch_spares name t r) _) fun _ => ?_
    have heq : (fun v => decide (v < g.cfg.nVocab ∧ r.reads g o.spared t (v / r.batch * r.batch) ∧
        r.expanded = .ok)) = fun v => decide (v < g.cfg.nVocab ∧
        r.reads g o t (v / r.batch * r.batch) ∧ r.expanded = .ok) := by
      funext v
      apply decide_eq_decide.2
      apply and_congr_right
      intro hv
      rw [hrows v hv]
    rw [heq]
    exact .refl _
  · push Not at hall
    obtain ⟨i, hi, hfails⟩ := hall
    apply Logged.Follows.of_bad
    · intro s
      refine ⟨.call ⟨.outputHead, .acquire, 0, i * r.batch⟩ true, ?_, rfl⟩
      apply Logged.mem_forM_log (List.mem_range.2 hi)
      intro s
      simp [headBatch, HeadRows.reads, hfails]
    · intro s
      refine ⟨.call ⟨.outputHead, .acquire, 0, i * r.batch⟩ (!r.reads g o.spared t (i * r.batch)),
        ?_, by simp [Event.fails, hfails]⟩
      apply Logged.mem_forM_log (List.mem_range.2 hi)
      intro s
      simp [headBatch]

theorem outputHead_spares : Spares o (outputHead g o ops) (outputHead g o.spared ops) := by
  have hhost (name : List UInt8) (t : GgufTensor) :
      Spares o (hostHead g o ops name t) (hostHead g o.spared ops name t) := by
    unfold hostHead
    cases quantInfo t.ggmlType with
    | none => exact .refl _
    | some q =>
      refine (allocate_spares rfl).bind fun ready => .ite (headRows_spares name t ?_) (.refl _)
      change 0 < if q.kind = 0 then 1 else 256
      split <;> decide
  unfold outputHead
  refine (Logged.Follows.refl _).bind fun w => ?_
  refine (normalise_spares rfl _ _).bind fun x => ?_
  refine (Logged.Follows.refl _).bind fun _ => ?_
  cases headTensor g with
  | none => exact .refl _
  | some p =>
    obtain ⟨name, t⟩ := p
    rw [works_spared rfl]
    exact .ite (.refl _) (hhost name t)

theorem hostLayers_spares (pos : Nat) (layers : List Nat) :
    Spares o (hostLayers g o ops pos layers) (hostLayers g o.spared ops pos layers) := by
  induction layers with
  | nil => exact .refl _
  | cons l ls ih =>
    refine attentionLayer_spares.bind fun _ => ?_
    exact ffnLayer_spares.bind fun st => .ite (.refl _) ih

variable [Field K] [LinearOrder K]

theorem denseStage_spared (pos : Nat) :
    denseStage g o.spared ops pos = denseStage g o ops pos := rfl

theorem modelGraphDecode_spares (token kvPos : Int) :
    Spares o (modelGraphDecode g o ops token kvPos)
      (modelGraphDecode g o.spared ops token kvPos) := by
  unfold modelGraphDecode
  refine .ite (.refl _) ?_
  refine (modelGraphEmbed_spares token).bind fun st => .ite (.refl _) ?_
  rw [denseStage_spared]
  refine (Logged.Follows.refl _).bind fun dense => ?_
  cases dense with
  | logits => exact .refl _
  | layers => exact outputHead_spares.bind fun _ => .refl _
  | failed =>
    refine (hostLayers_spares _ _).bind fun st => .ite (.refl _) ?_
    exact outputHead_spares.bind fun _ => .refl _

end Decode

end VgEngine.Decode
