import VgEngine.Decode.Spared
import VgEngine.Decode.Passive

/-! Which failures of its calls a decode reports: those of the embedding, the router and the
routed experts. All the others are passed over. -/
namespace VgEngine.Decode
open Lib Bytes Gguf Model

/-- The entry makes the decode return an error. -/
def Event.stops : Event → Bool
  | .call c failed => failed && c.place.reported && c.use ≠ .rows
  | .matmul c _ status => c.place.reported && status ≠ .ok
  | .refused _ => true
  | .skipped _ _ => false
  | .ffn _ _ => false

/-- The entry is logged as failed where its call fails. -/
def Event.Honest (o : Outcomes) (e : Event) : Prop := e.fails o = true → e.failed = true

/-- The computation stops nothing. -/
abbrev Quiet {V S α : Type} (o : Outcomes) (m : Exec V S α) : Prop :=
  Logged.Logs (fun e => e.Honest o ∧ ¬ e.stops = true) m

/-- The value is good exactly when nothing stops. -/
abbrev Tells {V S α : Type} (o : Outcomes) (good : α → Prop) (m : Exec V S α) : Prop :=
  Logged.Reports (fun e => e.Honest o) (fun e => e.stops = true) good m

/-- A result that is no error. -/
def Finished {α : Type} : Except Status α → Prop
  | .ok _ => True
  | .error st => st = .ok

theorem not_finished {α : Type} {st : Status} (h : st ≠ .ok) :
    ¬ Finished (.error st : Except Status α) := h

section Calls

variable {K : Type*} {V S : Type} {g : Graph K} {o : Outcomes} {ops : Ops V S}
variable {place : Place} {layer index : Nat}

theorem call_honest {c : Call} {failed : Bool} (h : o c ≠ .ok → failed = true) :
    (Event.call c failed).Honest o := by
  intro hfails
  rcases Bool.or_eq_true_iff.1 hfails with hfailed | hbad
  · exact hfailed
  · exact h (of_decide_eq_true hbad)

theorem logCall_quiet {c : Call} {failed : Bool} (h : o c ≠ .ok → failed = true)
    (hplace : c.place.reported = false ∨ c.use = .rows) :
    Quiet (V := V) (S := S) o (Logged.log (.call c failed)) := by
  apply Logged.Logs.log
  constructor
  · exact call_honest h
  · rcases hplace with hplace | huse
    · simp [Event.stops, hplace]
    · simp [Event.stops, huse]

theorem logMatmul_quiet {c : Call} {m : Matmul} {st : Status}
    (h : c.place.reported = false ∨ st = .ok) :
    Quiet (V := V) (S := S) o (Logged.log (.matmul c m st)) := by
  apply Logged.Logs.log
  constructor
  · exact id
  · rcases h with hplace | hst
    · simp [Event.stops, hplace]
    · simp [Event.stops, hst]

theorem log_quiet {e : Event} (h : e.Honest o) (hstops : e.stops = false) :
    Quiet (V := V) (S := S) o (Logged.log e) :=
  .log ⟨h, by rw [hstops]; exact Bool.false_ne_true⟩

theorem logFfn_quiet {kind : FfnKind} :
    Quiet (V := V) (S := S) o (Logged.log (.ffn layer kind)) := log_quiet id rfl

theorem logSkipped_quiet : Quiet (V := V) (S := S) o (Logged.log (.skipped place layer)) :=
  log_quiet id rfl

theorem passive_quiet : Passive o fun e => e.Honest o ∧ ¬ e.stops = true := by
  intro c failed hplace h
  constructor
  · exact call_honest h
  · simp [Event.stops, hplace]

/-- The row buffer of a kernel is passed over at every place. -/
theorem cpuMatmul_quiet {m : Matmul} (h : place.reported = false ∨ cpuStatus m = .ok) (x : V) :
    Quiet (S := S) o (cpuMatmul o ops place layer index m x) := by
  unfold cpuMatmul
  refine (logMatmul_quiet h).bind fun _ => ?_
  refine .ite (.pure _) (.ite (.pure _) ?_)
  exact (logCall_quiet (fun hbad => decide_eq_true hbad) (Or.inr rfl)).bind fun _ => .pure _

theorem dispatch_quiet (h : place.reported = false) (gpu : Bool) (m : Matmul) (x : V) :
    Quiet (S := S) o (dispatch o ops place layer index gpu m x) := by
  unfold dispatch
  refine .ite ?_ (cpuMatmul_quiet (Or.inl h) x)
  exact (logMatmul_quiet (Or.inr rfl)).bind fun _ => .pure _

theorem acquireWeight_tells (h : place.reported = true) (name : List UInt8) :
    Tells (V := V) (S := S) o Finished (acquireWeight g o place layer index name) := by
  unfold acquireWeight
  intro s
  cases find g.file name with
  | none => simp [Finished, Event.stops, h, call_honest]
  | some t =>
    by_cases hok : o ⟨place, .acquire, layer, index⟩ = .ok
    · simp [Finished, Event.stops, hok, call_honest]
    · simp [Finished, Event.stops, h, hok, call_honest]

theorem allocate_tells (h : place.reported = true) :
    Tells (V := V) (S := S) o (· = true) (allocate o place layer index) := by
  unfold allocate
  intro s
  by_cases hok : o ⟨place, .buffer, layer, index⟩ = .ok
  · simp [Event.stops, hok, call_honest]
  · simp [Event.stops, h, hok, call_honest]

theorem cpuMatmul_tells (h : place.reported = true) (m : Matmul) (x : V) :
    Tells (S := S) o (fun y => y.1 = .ok) (cpuMatmul o ops place layer index m x) := by
  by_cases hst : cpuStatus m = .ok
  · apply Logged.Reports.of_logs (cpuMatmul_quiet (Or.inr hst) x)
    intro s
    unfold cpuMatmul
    rw [hst]
    simp only [ne_eq, not_true_eq_false, if_false, Logged.bind_value]
    split <;> rfl
  · intro s
    unfold cpuMatmul
    simp [hst, Event.stops, Event.Honest, Event.fails, h]

theorem dispatch_tells (h : place.reported = true) (gpu : Bool) (m : Matmul) (x : V) :
    Tells (S := S) o (fun y => y.1 = .ok) (dispatch o ops place layer index gpu m x) := by
  unfold dispatch
  refine .ite ?_ (cpuMatmul_tells h m x)
  apply Logged.Reports.of_logs
  · exact (logMatmul_quiet (Or.inr rfl)).bind fun _ => .pure _
  · exact fun _ => rfl

/-- After a result, the rest runs on its value, and its error is passed on. -/
theorem tells_except {α β : Type} {m : Exec V S (Except Status α)} {good : β → Prop}
    {f : Except Status α → Exec V S β} (h : Tells o Finished m)
    (herror : ∀ st s, ((f (.error st)) s).2 = [] ∧ (good ((f (.error st)) s).1.1 ↔ st = .ok))
    (hok : ∀ a, Tells o good (f (.ok a))) : Tells o good (m >>= f) := by
  apply Logged.Reports.bind h
  · intro r hr
    cases r with
    | ok a => exact hok a
    | error st =>
      intro s
      rw [(herror st s).1]
      constructor
      · intro e he
        cases he
      · exact iff_of_true ((herror st s).2.2 hr) fun e he => by cases he
  · intro r hr s
    cases r with
    | ok a => exact absurd trivial hr
    | error st => exact ⟨(herror st s).1, fun hgood => hr ((herror st s).2.1 hgood)⟩

/-- After a product, the rest runs where it was made, and its error is passed on. -/
theorem tells_product {β : Type} {m : Exec V S (Status × V)} {good : β → Prop}
    {stop go : Status × V → Exec V S β} (h : Tells o (fun y => y.1 = .ok) m)
    (hstop : ∀ y s, ((stop y) s).2 = [] ∧ (good ((stop y) s).1.1 ↔ y.1 = .ok))
    (hgo : ∀ y, Tells o good (go y)) :
    Tells o good (m >>= fun y => if y.1 ≠ .ok then stop y else go y) := by
  apply Logged.Reports.bind h
  · intro y hy
    rw [if_neg (not_not.2 hy)]
    exact hgo y
  · intro y hy s
    rw [if_pos hy]
    exact ⟨(hstop y s).1, fun hgood => hy ((hstop y s).2.1 hgood)⟩

/-- After a step with a status, the rest runs where it is ok. -/
theorem tells_status {m : Exec V S Status} {go : Exec V S Status} (h : Tells o (· = .ok) m)
    (hgo : Tells o (· = .ok) go) :
    Tells o (· = .ok) (m >>= fun st => if st ≠ .ok then pure st else go) := by
  apply Logged.Reports.bind h
  · intro st hst
    rw [if_neg (not_not.2 hst)]
    exact hgo
  · intro st hst s
    rw [if_pos hst]
    exact ⟨rfl, hst⟩

/-- After an allocation, the rest runs where it succeeded. -/
theorem tells_ready {β : Type} {m : Exec V S Bool} {good : β → Prop} {stop : β} {go : Exec V S β}
    (h : Tells o (· = true) m) (hstop : ¬ good stop) (hgo : Tells o good go) :
    Tells o good (m >>= fun ready => if ready then go else pure stop) := by
  apply Logged.Reports.bind h
  · intro ready hready
    rw [if_pos hready]
    exact hgo
  · intro ready hready s
    rw [if_neg hready]
    exact ⟨rfl, hstop⟩

theorem refuse_tells {st : Status} (h : st ≠ .ok) :
    Tells (V := V) (S := S) o (· = .ok) (refuse st) := by
  intro s
  constructor
  · intro e he
    rw [List.mem_singleton.1 he]
    exact id
  · exact iff_of_false h fun hall => hall _ (List.mem_singleton_self _) rfl

theorem tells_pure {α : Type} {good : α → Prop} {a : α} (h : good a) :
    Tells (V := V) (S := S) o good (pure a) :=
  .of_logs (.pure a) fun _ => h

end Calls

section Quiet

variable {K : Type*} {V S : Type} {g : Graph K} {o : Outcomes} {ops : Ops V S}
variable {place : Place} {layer pos : Nat}

theorem project_quiet {biasPlace : Place} (h : place.reported = false)
    (hbias : biasPlace.reported = false) (bias : String) (m : Matmul) (gpu : Bool)
    (old : Option V) (x : V) :
    Quiet (S := S) o (project g o ops layer place biasPlace bias m gpu old x) := by
  have hready : Quiet (V := V) (S := S) o (projectBuffer o layer place old) := by
    cases old with
    | some y => exact .pure _
    | none => exact allocate_logs passive_quiet h
  have hproduct : Quiet (S := S) o (projectRows g o ops layer place m gpu old x) := by
    unfold projectRows
    refine .ite ?_ ((dispatch_quiet h _ m x).bind fun _ => .pure _)
    exact (logMatmul_quiet (Or.inr rfl)).bind fun _ => .pure _
  unfold project
  refine hready.bind fun _ => .ite ?_ (.pure _)
  refine hproduct.bind fun y => ?_
  exact (addBias_logs passive_quiet hbias _ _ y).bind fun _ => .pure _

theorem batchProjections_quiet (tq : GgufTensor) (qdim : Nat) (x : V) :
    Quiet (S := S) o (batchProjections g o ops layer tq qdim x) := by
  unfold batchProjections
  dsimp only
  split
  · exact .ite (.pure _) (.pure _)
  · exact .pure _

theorem queryStage_quiet (tq : GgufTensor) (batch : Batch V) (x : V) :
    Quiet (S := S) o (queryStage g o ops layer pos tq batch x) := by
  unfold queryStage
  refine (project_quiet rfl rfl _ _ _ _ x).bind fun q => ?_
  cases q with
  | none => exact .pure _
  | some q => exact (Logged.Logs.foldlM (rotateHead_logs passive_quiet rfl _ _) _ q).bind fun _ => .modify _

theorem keyStage_quiet (batch : Batch V) (x : V) :
    Quiet (S := S) o (keyStage g o ops layer pos batch x) := by
  unfold keyStage
  refine (acquireWeight_logs passive_quiet rfl _).bind fun r => ?_
  cases r with
  | error st => exact .pure _
  | ok t =>
    refine (Logged.Logs.onlyIf (growQkv_logs passive_quiet _ _)).bind fun _ => ?_
    refine (project_quiet rfl rfl _ _ _ _ x).bind fun k => ?_
    cases k with
    | none => exact .pure _
    | some k => exact (Logged.Logs.foldlM (rotateHead_logs passive_quiet rfl _ _) _ k).bind fun _ => .pure _

theorem valueStage_quiet (batch : Batch V) (kvd : Nat) (x : V) :
    Quiet (S := S) o (valueStage g o ops layer batch kvd x) := by
  unfold valueStage
  refine (acquireWeight_logs passive_quiet rfl _).bind fun r => ?_
  cases r with
  | error st => exact .pure _
  | ok t =>
    refine (Logged.Logs.onlyIf (growQkv_logs passive_quiet _ _)).bind fun _ => ?_
    exact (project_quiet rfl rfl _ _ _ _ x).bind fun _ => .pure _

theorem outputStage_quiet : Quiet o (outputStage g o ops layer) := by
  have hproject (t : GgufTensor) : Quiet o (projectOutput g o ops layer t) := by
    unfold projectOutput
    refine (allocate_logs passive_quiet rfl).bind fun ready => .ite ?_ (.pure _)
    refine Logged.Logs.get.bind fun w => ?_
    refine (dispatch_quiet rfl _ _ _).bind fun y => ?_
    exact (postNorm_logs passive_quiet rfl _ _).bind fun _ => .modify _
  unfold outputStage
  refine .ite (.pure _) (.ite (.modify _) ?_)
  refine (acquireWeight_logs passive_quiet rfl _).bind fun r => ?_
  cases r with
  | error st => exact .modify _
  | ok t => exact hproject t

theorem attentionLayer_quiet : Quiet o (attentionLayer g o ops layer pos) := by
  unfold attentionLayer
  refine Logged.Logs.get.bind fun w => ?_
  refine (Logged.Logs.modify _).bind fun _ => ?_
  refine (normalise_logs passive_quiet rfl _ _).bind fun x => ?_
  refine (Logged.Logs.modify _).bind fun _ => ?_
  refine (acquireWeight_logs passive_quiet rfl _).bind fun r => ?_
  cases r with
  | error st => exact .modify _
  | ok tq =>
    refine (growQkv_logs passive_quiet _ _).bind fun _ => ?_
    refine (batchProjections_quiet _ _ _).bind fun batch => ?_
    refine (queryStage_quiet _ _ _).bind fun _ => ?_
    refine (keyStage_quiet _ _).bind fun k => ?_
    refine (valueStage_quiet _ _ _).bind fun v => ?_
    refine (storeRow_logs passive_quiet _ _ _).bind fun _ => ?_
    exact (attendStage_logs passive_quiet _).bind fun _ => outputStage_quiet

end Quiet

section Experts

variable {K : Type*} {V S : Type} {g : Graph K} {o : Outcomes} {ops : Ops V S} {layer : Nat}

theorem acquireExpert_tells {place : Place} (h : place.reported = true)
    (index : Nat) (kind : String) (expert out inDim : Nat) :
    Tells (V := V) (S := S) o Finished
      (acquireExpert g o layer place index kind expert out inDim) := by
  unfold acquireExpert
  apply tells_except (acquireWeight_tells h _) fun _ _ => ⟨rfl, Iff.rfl⟩
  intro t
  refine .ite ?_ ?_
  · intro s
    simp [Finished, Event.stops, Event.Honest, Event.failed, h]
  · exact tells_ready (allocate_tells h) (not_finished (by decide)) (tells_pure trivial)

theorem runExpert_tells (logits xin : V) (ids : List Nat) (index expert : Nat) (acc : V) :
    Tells (S := S) o Finished (runExpert g o ops layer logits xin ids index expert acc) := by
  unfold runExpert
  apply tells_except (acquireExpert_tells rfl _ _ _ _ _) fun _ _ => ⟨rfl, Iff.rfl⟩
  intro gate
  apply tells_except (acquireExpert_tells rfl _ _ _ _ _) fun _ _ => ⟨rfl, Iff.rfl⟩
  intro up
  apply tells_product (dispatch_tells rfl _ _ _) fun _ _ => ⟨rfl, Iff.rfl⟩
  intro a
  apply tells_product (dispatch_tells rfl _ _ _) fun _ _ => ⟨rfl, Iff.rfl⟩
  intro b
  apply tells_except (acquireExpert_tells rfl _ _ _ _ _) fun _ _ => ⟨rfl, Iff.rfl⟩
  intro down
  apply tells_product (dispatch_tells rfl _ _ _) fun _ _ => ⟨rfl, Iff.rfl⟩
  exact fun y => tells_pure trivial

theorem runExperts_tells (logits xin : V) (ids : List Nat) (rest : List (Nat × Nat)) (acc : V) :
    Tells (S := S) o Finished (runExperts g o ops layer logits xin ids rest acc) := by
  induction rest generalizing acc with
  | nil => exact tells_pure trivial
  | cons e rest ih =>
    exact tells_except (runExpert_tells logits xin ids e.2 e.1 acc)
      (fun _ _ => ⟨rfl, Iff.rfl⟩) ih

theorem runShared_quiet (xin acc : V) :
    Quiet (S := S) o (runShared g o ops layer xin acc) := by
  have hgate : Quiet (V := V) (S := S) o (sharedGate g o layer) := by
    unfold sharedGate
    refine (acquireOptional_logs passive_quiet rfl _).bind fun r => ?_
    cases r <;> exact .pure _
  unfold runShared
  refine hgate.bind fun gate => ?_
  refine (acquireWeight_logs passive_quiet rfl _).bind fun tg => ?_
  cases tg with
  | error st => exact .pure _
  | ok tg =>
  refine (acquireWeight_logs passive_quiet rfl _).bind fun tu => ?_
  cases tu with
  | error st => exact .pure _
  | ok tu =>
  refine (dispatch_quiet rfl _ _ _).bind fun a => .ite (.pure _) ?_
  refine (dispatch_quiet rfl _ _ _).bind fun b => .ite (.pure _) ?_
  refine (acquireWeight_logs passive_quiet rfl _).bind fun td => ?_
  cases td with
  | error st => exact .pure _
  | ok td => exact (dispatch_quiet rfl _ _ _).bind fun y => .ite (.pure _) (.pure _)

theorem finishMoe_tells (acc : V) (shared : Bool) :
    Tells o (· = .ok) (finishMoe g o ops layer acc shared) := by
  apply Logged.Reports.of_logs
  · unfold finishMoe
    refine (postNorm_logs passive_quiet rfl _ _).bind fun y => ?_
    refine (Logged.Logs.modify _).bind fun _ => ?_
    exact logFfn_quiet.bind fun _ => .pure _
  · exact fun _ => rfl

theorem moeFfnLayer_tells : Tells o (· = .ok) (moeFfnLayer g o ops layer) := by
  unfold moeFfnLayer
  refine .after .get fun w => .after (.modify _) fun _ => ?_
  refine .after (normalise_logs passive_quiet rfl _ _) fun xin => ?_
  apply tells_except (acquireWeight_tells rfl _) fun _ _ => ⟨rfl, Iff.rfl⟩
  intro t
  apply tells_product (dispatch_tells rfl _ _ _) fun _ _ => ⟨rfl, Iff.rfl⟩
  intro logits
  refine .ite (refuse_tells (by decide)) ?_
  apply tells_ready (allocate_tells rfl) (by decide)
  refine .after (.modify _) fun _ => ?_
  apply tells_except (runExperts_tells _ _ _ _ _) fun _ _ => ⟨rfl, Iff.rfl⟩
  intro acc
  refine .after ?_ fun acc => finishMoe_tells _ _
  exact .ite (runShared_quiet _ _) (.pure _)

end Experts

section Ffn

variable {K : Type*} {V S : Type} {g : Graph K} {o : Outcomes} {ops : Ops V S} {layer : Nat}

theorem logProducts_quiet {c : Call} (ms : List Matmul) :
    Quiet (V := V) (S := S) o (ms.forM fun m => Logged.log (.matmul c m .ok)) :=
  .forM (fun _ => logMatmul_quiet (Or.inr rfl)) ms

theorem headStage_quiet : Quiet o (headStage g o ops layer) := by
  have hhead : Quiet o (fusedHead g o ops layer) := by
    unfold fusedHead
    refine Logged.Logs.get.bind fun w => ?_
    split
    · refine .ite ?_ (.pure _)
      refine (logMatmul_quiet (Or.inr rfl)).bind fun _ => ?_
      refine (logMatmul_quiet (Or.inr rfl)).bind fun _ => ?_
      exact (Logged.Logs.modify _).bind fun _ => .pure _
    · exact .pure _
  have hprojection : Quiet o (headProjection g o ops layer) := by
    unfold headProjection
    refine (acquireWeight_logs passive_quiet rfl _).bind fun r => ?_
    cases r with
    | error st => exact .pure _
    | ok t =>
      refine Logged.Logs.get.bind fun w => ?_
      exact (dispatch_quiet rfl _ _ _).bind fun _ => .pure _
  have hfallback : Quiet o (headFallback g o ops layer) := by
    unfold headFallback
    refine (allocate_logs passive_quiet rfl).bind fun ready => .ite ?_ (.modify _)
    exact hprojection.bind fun _ => .modify _
  unfold headStage
  refine .ite (hhead.bind fun r => ?_) (.pure _)
  cases r with
  | some logits => exact .pure _
  | none => exact hfallback.bind fun _ => .pure _

theorem tailStage_quiet : Quiet o (tailStage g o ops layer) := by
  have hfallback (m : Matmul) : Quiet o (tailFallback g o ops layer m) := by
    unfold tailFallback
    refine (allocate_logs passive_quiet rfl).bind fun ready => .ite ?_ (.pure _)
    refine Logged.Logs.get.bind fun w => ?_
    exact (dispatch_quiet rfl _ _ _).bind fun _ => .modify _
  unfold tailStage
  refine .ite ?_ (.pure _)
  cases tailTensors g o layer with
  | none => exact Logged.Logs.bind (.onlyIf logSkipped_quiet) fun _ => .pure _
  | some t =>
    unfold layerTail
    refine Logged.Logs.get.bind fun w => .ite ?_ ?_
    · refine (logProducts_quiet _).bind fun _ => ?_
      refine (Logged.Logs.modify _).bind fun _ => ?_
      exact logFfn_quiet.bind fun _ => .pure _
    · exact (hfallback _).bind fun _ => .pure _

theorem routedBuffers_quiet (first count : Nat) :
    Quiet (V := V) (S := S) o (routedBuffers o layer first count) :=
  .foldlM (fun _ _ => (allocate_logs passive_quiet rfl).bind fun _ => .pure _) _ _

theorem routedExpert_quiet (tg tu td : GgufTensor) (x : V) :
    Quiet (S := S) o (routedExpert g o ops layer tg tu td x) := by
  unfold routedExpert
  refine .ite ((logProducts_quiet _).bind fun _ => .pure _) ?_
  refine (cpuMatmul_quiet (Or.inl rfl) _).bind fun a => ?_
  refine (cpuMatmul_quiet (Or.inl rfl) _).bind fun b => ?_
  exact (cpuMatmul_quiet (Or.inl rfl) _).bind fun y => .pure _

theorem routedBlock_quiet (head : Option V) (x : V) :
    Quiet o (routedBlock g o ops layer head x) := by
  have hlogits : Quiet (S := S) o (routedLogits g o ops layer head x) := by
    unfold routedLogits
    cases head with
    | some logits => exact .pure _
    | none =>
      refine (acquireWeight_logs passive_quiet rfl _).bind fun r => ?_
      cases r with
      | error st => exact .pure _
      | ok t => exact (dispatch_quiet rfl _ _ _).bind fun _ => .pure _
  have hsum (logits : V) : Quiet (S := S) o (routedSum g o ops layer logits x) := by
    unfold routedSum
    refine (acquireWeight_logs passive_quiet rfl _).bind fun tg => ?_
    cases tg with
    | error st => exact .pure _
    | ok tg =>
    refine (acquireWeight_logs passive_quiet rfl _).bind fun tu => ?_
    cases tu with
    | error st => exact .pure _
    | ok tu =>
    refine (acquireWeight_logs passive_quiet rfl _).bind fun td => ?_
    cases td with
    | error st => exact .pure _
    | ok td =>
    refine (routedBuffers_quiet _ _).bind fun ready => .ite ?_ (.pure _)
    exact (routedExpert_quiet _ _ _ _).bind fun _ => .pure _
  unfold routedBlock
  refine logFfn_quiet.bind fun _ => ?_
  refine (routedBuffers_quiet _ _).bind fun ready => .ite ?_ (.pure _)
  refine hlogits.bind fun logits => ?_
  refine (hsum logits).bind fun _ => ?_
  exact (Logged.Logs.modify _).bind fun _ => .pure _

theorem gatedStage_quiet (x : V) : Quiet o (gatedStage g o ops layer x) := by
  have hpair (gate up : Matmul) : Quiet (S := S) o (gatePair g o ops layer gate up x) := by
    unfold gatePair
    refine .ite ?_ ?_
    · refine (logMatmul_quiet (Or.inr rfl)).bind fun _ => ?_
      exact (logMatmul_quiet (Or.inr rfl)).bind fun _ => .pure _
    · refine (cpuMatmul_quiet (Or.inl rfl) _).bind fun a => ?_
      exact (cpuMatmul_quiet (Or.inl rfl) _).bind fun b => .pure _
  unfold gatedStage
  refine (allocate_logs passive_quiet rfl).bind fun gateBuf => ?_
  refine (allocate_logs passive_quiet rfl).bind fun upBuf => .ite ?_ (.pure _)
  refine (acquireWeight_logs passive_quiet rfl _).bind fun tg => ?_
  cases tg with
  | error st => exact .pure _
  | ok tg =>
  refine (acquireWeight_logs passive_quiet rfl _).bind fun tu => ?_
  cases tu with
  | error st => exact .pure _
  | ok tu => exact (hpair _ _).bind fun _ => .modify _

theorem ungatedStage_quiet (x : V) : Quiet o (ungatedStage g o ops layer x) := by
  have hup : Quiet o (ungatedUp g o ops layer x) := by
    unfold ungatedUp
    refine (acquireWeight_logs passive_quiet rfl _).bind fun r => ?_
    cases r with
    | error st => exact .pure _
    | ok t => exact (dispatch_quiet rfl _ _ _).bind fun _ => .modify _
  exact hup.bind fun _ => .modify _

theorem downStage_quiet : Quiet o (downStage g o ops layer) := by
  have hnorm : Quiet o (ffnSubNorm g o ops layer) := by
    unfold ffnSubNorm
    refine Logged.Logs.get.bind fun w => ?_
    exact (shapedNorm_logs passive_quiet rfl _ _ _).bind fun _ => .modify _
  have hdown (t : GgufTensor) : Quiet o (projectDown g o ops layer t) := by
    unfold projectDown
    refine (allocate_logs passive_quiet rfl).bind fun ready => .ite ?_ (.pure _)
    refine Logged.Logs.get.bind fun w => ?_
    refine (dispatch_quiet rfl _ _ _).bind fun y => ?_
    exact (postNorm_logs passive_quiet rfl _ _).bind fun _ => .modify _
  unfold downStage
  refine (Logged.Logs.onlyIf hnorm).bind fun _ => ?_
  refine (acquireWeight_logs passive_quiet rfl _).bind fun r => ?_
  cases r with
  | error st => exact .pure _
  | ok t => exact hdown t

theorem fusedFfn_quiet (x : V) : Quiet o (fusedFfn g o ops layer x) := by
  unfold fusedFfn
  dsimp only
  split
  · refine .ite ?_ (.pure _)
    refine (logProducts_quiet _).bind fun _ => ?_
    refine (Logged.Logs.modify _).bind fun _ => ?_
    exact logFfn_quiet.bind fun _ => .pure _
  · exact .pure _

/-- The dense branches of a layer never fail. -/
theorem denseBlock_tells (x : V) : Tells o (· = .ok) (denseBlock g o ops layer x) := by
  have hend (kind : FfnKind) : Tells o (· = .ok) (do
      downStage g o ops layer
      Logged.log (.ffn layer kind)
      pure Status.ok) :=
    .after downStage_quiet fun _ => .after logFfn_quiet fun _ => tells_pure rfl
  unfold denseBlock
  refine .ite (.after (fusedFfn_quiet x) fun done => .ite (tells_pure rfl) ?_) ?_
  · exact .after (gatedStage_quiet x) fun _ => hend .gated
  · exact .after (ungatedStage_quiet x) fun _ => hend .ungated

theorem ffnLayer_tells : Tells o (· = .ok) (ffnLayer g o ops layer) := by
  have hrouted (head : Option V) (x : V) :
      Tells o (· = .ok) (routedBlock g o ops layer head x) := by
    apply Logged.Reports.of_logs (routedBlock_quiet head x)
    intro s
    unfold routedBlock
    simp only [Logged.bind_value]
    split <;> rfl
  have hblock (head : Option V) : Tells o (· = .ok) (perOpBlock g o ops layer head) := by
    unfold perOpBlock
    refine .after .get fun w => .after (normalise_logs passive_quiet rfl _ _) fun x => ?_
    exact .after (.modify _) fun _ => .ite (hrouted head x) (denseBlock_tells x)
  unfold ffnLayer
  refine .ite (.after (.onlyIf logSkipped_quiet) fun _ => moeFfnLayer_tells) ?_
  refine .after headStage_quiet fun head => .after (.modify _) fun _ => ?_
  exact .after tailStage_quiet fun done => .ite (tells_pure rfl) (hblock head)

end Ffn

section Decode

variable {K : Type*} {V S : Type} {g : Graph K} {o : Outcomes} {ops : Ops V S}

theorem modelGraphEmbed_tells (token : Int) :
    Tells o (· = .ok) (modelGraphEmbed g o ops token) := by
  unfold modelGraphEmbed
  refine .ite (refuse_tells (by decide)) ?_
  cases find g.file (txt "token_embd.weight") with
  | none => exact refuse_tells (by decide)
  | some t =>
  dsimp only
  cases quantInfo t.ggmlType with
  | none => exact refuse_tells (by decide)
  | some q =>
  apply tells_ready (allocate_tells rfl) (by decide)
  refine .ite (refuse_tells (by decide)) ?_
  by_cases hok : o ⟨.embedding, .acquire, 0, 0⟩ = .ok
  · refine .after (log_quiet (call_honest fun hbad => absurd hok hbad) ?_) fun _ => ?_
    · simp [Event.stops, hok]
    · rw [if_neg (not_not.2 hok)]
      split
      next hbad => exact refuse_tells hbad.2
      next => exact .after (.modify _) fun _ => tells_pure rfl
  · intro s
    simp [hok, Event.stops, Event.Honest, Event.failed, Place.reported]

theorem outputHead_quiet : Quiet o (outputHead g o ops) := by
  have hrows (name : List UInt8) (t : GgufTensor) (r : HeadRows) :
      Quiet o (headRows g o ops name t r) := by
    unfold headRows
    refine Logged.Logs.bind (.forM (fun i => ?_) _) fun _ => .modify _
    unfold headBatch
    dsimp only
    refine (logCall_quiet ?_ (Or.inl rfl)).bind fun _ => .onlyIf (logMatmul_quiet (Or.inl rfl))
    intro hbad
    simp [HeadRows.reads, hbad]
  have hhost (name : List UInt8) (t : GgufTensor) : Quiet o (hostHead g o ops name t) := by
    unfold hostHead
    cases quantInfo t.ggmlType with
    | none => exact logSkipped_quiet
    | some q => exact (allocate_logs passive_quiet rfl).bind fun ready => .ite (hrows _ _ _) (.pure _)
  unfold outputHead
  refine Logged.Logs.get.bind fun w => ?_
  refine (normalise_logs passive_quiet rfl _ _).bind fun x => ?_
  refine (Logged.Logs.modify _).bind fun _ => ?_
  cases headTensor g with
  | none => exact logSkipped_quiet.bind fun _ => .modify _
  | some p => exact .ite ((logMatmul_quiet (Or.inr rfl)).bind fun _ => .modify _) (hhost p.1 p.2)

theorem hostLayers_tells (pos : Nat) (layers : List Nat) :
    Tells o (· = .ok) (hostLayers g o ops pos layers) := by
  induction layers with
  | nil => exact tells_pure rfl
  | cons l ls ih =>
    exact .after attentionLayer_quiet fun _ => tells_status ffnLayer_tells ih

variable [Field K] [LinearOrder K]

theorem denseStage_quiet (pos : Nat) : Quiet o (denseStage g o ops pos) := by
  unfold denseStage denseForward
  refine (Logged.Logs.modify _).bind fun _ => Logged.Logs.get.bind fun w => .ite ?_ (.pure _)
  refine .ite ?_ (.ite ?_ ?_)
  · exact (Logged.Logs.modify _).bind fun _ => (Logged.Logs.modify _).bind fun _ => .pure _
  · exact (Logged.Logs.modify _).bind fun _ => .pure _
  · exact (Logged.Logs.modify _).bind fun _ => .pure _

theorem finish_tells : Tells o (· = .ok) (finish g ops) :=
  .after (.onlyIf (.modify _)) fun _ => tells_pure rfl

/-- The status of a decode is ok exactly when no failure at a reported place is met. -/
theorem modelGraphDecode_tells (token kvPos : Int) :
    Tells o (· = .ok) (modelGraphDecode g o ops token kvPos) := by
  have hend : Tells o (· = .ok) (do outputHead g o ops; finish g ops) :=
    .after outputHead_quiet fun _ => finish_tells
  unfold modelGraphDecode
  refine .ite (refuse_tells (by decide)) ?_
  apply tells_status (modelGraphEmbed_tells token)
  refine .after (denseStage_quiet _) fun dense => ?_
  cases dense with
  | logits => exact finish_tells
  | layers => exact hend
  | failed => exact tells_status (hostLayers_tells _ _) hend

end Decode

end VgEngine.Decode
