import VgEngine.Decode.PerOp

/-! The routed blocks when only calls of the device fail, and the blocks of `ffn_layer` as a whole:
what each adds to the hidden state, and when it returns without an error. -/
namespace VgEngine.Decode
open Lib Bytes Gguf Model

section Routed

variable {K : Type*} {V S : Type} {G : Graph K} {o : Outcomes} {ops : Ops V S} {layer : Nat}

/-- The logits of the router of a routed block; without its weight they are zero. -/
def routerLogits (G : Graph K) (ops : Ops V S) (layer : Nat) (x : V) : V :=
  match find G.file (blk layer "ffn_gate_inp.weight") with
  | some t => product ops (weight (blk layer "ffn_gate_inp.weight") t 1 G.cfg.nEmbd) x
  | none => ops.zero

/-- What a routed block adds to its input. -/
def routedDelta (G : Graph K) (ops : Ops V S) (layer : Nat) (x : V) : V :=
  match find G.file (blk layer "ffn_gate_exps.weight"),
    find G.file (blk layer "ffn_up_exps.weight"),
    find G.file (blk layer "ffn_down_exps.weight") with
  | some tg, some tu, some td =>
    let gate := weight (blk layer "ffn_gate_exps.weight") tg G.cfg.nFf G.cfg.nEmbd
    let up := weight (blk layer "ffn_up_exps.weight") tu G.cfg.nFf G.cfg.nEmbd
    let down := weight (blk layer "ffn_down_exps.weight") td G.cfg.nEmbd G.cfg.nFf
    ops.addExpert (routerLogits G ops layer x) [0] 0 ops.zero
      (product ops down (ops.swiglu (product ops gate x) (product ops up x)))
  | _, _, _ => ops.zero

theorem routedBuffers_true (ho : DeviceOnly o) (first count : Nat) :
    Logged.Yields (routedBuffers o layer first count : Exec V S _) true := by
  unfold routedBuffers
  generalize List.range count = l
  induction l with
  | nil => exact .pure _
  | cons i l ih =>
    rw [List.foldlM_cons]
    refine Logged.Yields.bind ?_ ih
    exact (allocate_true ho).bind (.pure _)

theorem routedLogits_yields (ho : DeviceOnly o) {head : Option V} {h : V}
    (hhead : Heads G ops layer head h) : Logged.Yields
      (routedLogits G o ops layer head (normed G.file ops (blk layer "ffn_norm.weight") h) :
        Exec V S _)
      (routerLogits G ops layer (normed G.file ops (blk layer "ffn_norm.weight") h)) := by
  unfold routedLogits routerLogits
  cases head with
  | some logits =>
    obtain ⟨t, ht, rfl⟩ := hhead logits rfl
    rw [ht]
    exact .pure _
  | none =>
    cases ht : find G.file (blk layer "ffn_gate_inp.weight") with
    | none => exact (acquireWeight_missing ht).bind (.pure _)
    | some t =>
      refine (acquireWeight_ok ho ht).bind ?_
      exact (dispatch_yields ho _ _).bind (.pure _)

theorem routedExpert_yields (ho : DeviceOnly o) (tg tu td : GgufTensor) (x : V) :
    Logged.Yields (routedExpert G o ops layer tg tu td x : Exec V S _)
      (product ops (weight (blk layer "ffn_down_exps.weight") td G.cfg.nEmbd G.cfg.nFf)
        (ops.swiglu
          (product ops (weight (blk layer "ffn_gate_exps.weight") tg G.cfg.nFf G.cfg.nEmbd) x)
          (product ops (weight (blk layer "ffn_up_exps.weight") tu G.cfg.nFf G.cfg.nEmbd) x))) := by
  unfold routedExpert
  refine .ite (fun hdevice => ?_) fun _ => ?_
  · simp only [Bool.and_eq_true, decide_eq_true_eq] at hdevice
    obtain ⟨⟨⟨⟨⟨⟨-, htg⟩, htu⟩, htd⟩, hin⟩, hout⟩, -⟩ := hdevice
    rw [product_q8 _ htg hin, product_q8 _ htu hin, product_q8 _ htd hout]
    exact fun s => rfl
  · refine (cpuMatmul_yields ho x).bind ?_
    refine (cpuMatmul_yields ho x).bind ?_
    exact (cpuMatmul_yields ho _).bind (.pure _)

theorem routedSum_yields (ho : DeviceOnly o) (x : V) : Logged.Yields
    (routedSum G o ops layer (routerLogits G ops layer x) x : Exec V S _)
    (routedDelta G ops layer x) := by
  unfold routedSum routedDelta
  cases hg : find G.file (blk layer "ffn_gate_exps.weight") with
  | none => exact (acquireWeight_missing hg).bind (.pure _)
  | some tg =>
  refine (acquireWeight_ok ho hg).bind ?_
  cases hu : find G.file (blk layer "ffn_up_exps.weight") with
  | none => exact (acquireWeight_missing hu).bind (.pure _)
  | some tu =>
  refine (acquireWeight_ok ho hu).bind ?_
  cases hd : find G.file (blk layer "ffn_down_exps.weight") with
  | none => exact (acquireWeight_missing hd).bind (.pure _)
  | some td =>
  refine (acquireWeight_ok ho hd).bind ((routedBuffers_true ho 5 4).bind ?_)
  exact (routedExpert_yields ho tg tu td x).bind (.pure _)

/-- A routed block adds the weighted output of its expert. -/
theorem routedBlock_adds (ho : DeviceOnly o) {head : Option V} {h : V}
    (hhead : Heads G ops layer head h) (s : Work V S) :
    let x := normed G.file ops (blk layer "ffn_norm.weight") h
    (routedBlock G o ops layer head x s).1 =
      (.ok, { s with hidden := ops.add s.res (routedDelta G ops layer x) }) := by
  intro x
  unfold routedBlock
  rw [Logged.bind_value, Logged.log_value]
  dsimp only
  rw [(routedBuffers_true ho 0 5).value, if_pos rfl, (routedLogits_yields ho hhead).value,
    (routedSum_yields ho x).value]
  rfl

/-- What the block behind the attention adds to its input, as the host makes it. -/
def blockDelta (G : Graph K) (ops : Ops V S) (layer : Nat) (h : V) : V :=
  let x := normed G.file ops (blk layer "ffn_norm.weight") h
  if hasTensor G "blk.0.ffn_gate_inp.weight" then routedDelta G ops layer x
  else denseDelta G ops layer x

/-- Whether the block is one that the device fuses. -/
def fusedBlock (G : Graph K) (o : Outcomes) (layer : Nat) : Bool :=
  !hasTensor G "blk.0.ffn_gate_inp.weight" && G.cfg.hasGateUp && fusedFfnRuns G o layer

/-- The block adds what the host adds, or the products alone where the device fuses them. -/
theorem perOpBlock_adds (ho : DeviceOnly o) {head : Option V} (s : Work V S)
    (hdense : hasTensor G "blk.0.ffn_gate_inp.weight" = false → DenseThere G layer)
    (hhead : Heads G ops layer head s.hidden) :
    (perOpBlock G o ops layer head s).1.1 = .ok ∧
      (perOpBlock G o ops layer head s).1.2.hidden = ops.add s.res
        (if fusedBlock G o layer then
          gatedDelta G ops layer (normed G.file ops (blk layer "ffn_norm.weight") s.hidden)
        else blockDelta G ops layer s.hidden) := by
  unfold perOpBlock blockDelta fusedBlock
  rw [Logged.bind_value, Logged.get_value]
  dsimp only
  rw [(normalise_normed ho _).value, Logged.bind_value, Logged.modify_value]
  dsimp only
  cases hrouter : hasTensor G "blk.0.ffn_gate_inp.weight" with
  | true =>
    rw [if_pos rfl, if_pos rfl, routedBlock_adds ho hhead]
    exact ⟨rfl, rfl⟩
  | false =>
    rw [if_neg Bool.false_ne_true, if_neg Bool.false_ne_true]
    exact denseBlock_value ho (hdense hrouter) _ _

end Routed

section Moe

variable {K : Type*} {V S α : Type} {G : Graph K} {o : Outcomes} {ops : Ops V S}
variable {place : Place} {layer index : Nat} {good : α → Prop}

/-- The slices of an expert are there, and the kernels take them. -/
def ExpertGoes (g : VgGguf) (cfg : ModelConfig K) (layer expert : Nat) : Prop :=
  ∃ gate, expertSlice g layer "ffn_gate" expert cfg.nFf cfg.nEmbd = some gate ∧
  ∃ up, expertSlice g layer "ffn_up" expert cfg.nFf cfg.nEmbd = some up ∧
    cpuStatus gate = .ok ∧ cpuStatus up = .ok ∧
  ∃ down, expertSlice g layer "ffn_down" expert cfg.nEmbd cfg.nFf = some down ∧
    cpuStatus down = .ok

/-- The router is there, its logits can be made, and the experts that they select go. -/
def MoeGoesFrom (g : VgGguf) (cfg : ModelConfig K) (ops : Ops V S) (layer : Nat) (x : V) : Prop :=
  ∃ t, find g (blk layer "ffn_gate_inp.weight") = some t ∧
    cpuStatus (weight (blk layer "ffn_gate_inp.weight") t cfg.nExpert cfg.nEmbd) = .ok ∧
    cfg.nExpertUsed ≤ 16 ∧
    ∀ e ∈ moeRoute (ops.greater (product ops
      (weight (blk layer "ffn_gate_inp.weight") t cfg.nExpert cfg.nEmbd) x)) cfg.nExpert
      cfg.nExpertUsed, ExpertGoes g cfg layer e

theorem acquireExpert_slice (ho : DeviceOnly o) (k : String) (expert outDim inDim : Nat) :
    Logged.Meets (fun _ => True)
      (fun r => r.toOption = expertSlice G.file layer k expert outDim inDim ∧ Errs r) True
      (acquireExpert G o layer place index k expert outDim inDim : Exec V S _) := by
  refine .of_logs (fun _ _ _ => trivial) fun s => ⟨?_, acquireExpert_raises _ _ _ _ s⟩
  unfold acquireExpert expertSlice
  dsimp only
  cases hfind : find G.file (blk layer (k ++ "_exps.weight")) with
  | none =>
    rw [(acquireWeight_missing hfind).value]
    rfl
  | some t =>
    rw [(acquireWeight_ok ho hfind).value, Option.bind_some]
    dsimp only
    generalize (if 3 ≤ t.nDims then dim t 2 else 1) = experts
    split
    · rfl
    · rw [(allocate_true ho).value]
      rfl

theorem mmDispatch_yields (ho : DeviceOnly o) (m : Matmul) (x : V) :
    Logged.Yields (mmDispatch G o ops place layer index m x : Exec V S _)
      (cpuStatus m, product ops m x) :=
  dispatch_yields ho _ x

/-- The rest runs where the product is made. -/
theorem settles_made {β : Type} {good : β → Prop} {m : Matmul} {x : V} (ho : DeviceOnly o)
    {stop go : Status × V → Exec V S β} {c : Prop}
    (hstop : ∀ y, y.1 ≠ .ok → Logged.Settles (fun _ => True) good False (stop y))
    (hgo : ∀ y, Logged.Settles (fun _ => True) good c (go y)) :
    Logged.Settles (fun _ => True) good (cpuStatus m = .ok ∧ c)
      (mmDispatch G o ops place layer index m x >>= fun y =>
        if y.1 ≠ .ok then stop y else go y) := by
  refine .known (Q := (· = (cpuStatus m, product ops m x)))
    (.of_logs (fun _ _ _ => trivial) (mmDispatch_yields ho m x).ensures) fun y hy => ?_
  rw [hy]
  by_cases hst : cpuStatus m = .ok
  · rw [if_neg (not_not.2 hst)]
    exact (hgo _).iff (by simp [hst])
  · rw [if_pos hst]
    exact (hstop _ hst).iff (by simp [hst])

theorem settles_failed {st : Status} :
    Logged.Settles (σ := Work V S) (fun _ : Event => True)
      (fun r : Except Status α => r.toOption.isSome = true) False (pure (.error st)) :=
  .pure _ (by simp [Except.toOption])

theorem runExpert_goes (ho : DeviceOnly o) (logits xin : V) (ids : List Nat) (expert : Nat)
    (acc : V) : Logged.Settles (fun _ => True) (fun r => r.toOption.isSome = true)
      (ExpertGoes G.file G.cfg layer expert)
      (runExpert G o ops layer logits xin ids index expert acc : Exec V S _) := by
  unfold runExpert ExpertGoes
  dsimp only
  refine settles_found (acquireExpert_slice ho _ _ _ _) (fun _ _ => settles_failed) fun gate => ?_
  refine settles_found (acquireExpert_slice ho _ _ _ _) (fun _ _ => settles_failed) fun up => ?_
  refine settles_made ho (fun _ _ => settles_failed) fun a => ?_
  refine settles_made ho (fun _ _ => settles_failed) fun b => ?_
  refine settles_found (acquireExpert_slice ho _ _ _ _) (fun _ _ => settles_failed) fun down => ?_
  refine (settles_made (c := True) ho (fun _ _ => settles_failed) fun y => ?_).iff
    (and_iff_left trivial)
  exact .pure _ (by simp [Except.toOption])

theorem runExperts_goes (ho : DeviceOnly o) (logits xin : V) (ids : List Nat)
    (rest : List (Nat × Nat)) (acc : V) :
    Logged.Settles (fun _ => True) (fun r => r.toOption.isSome = true)
      (∀ e ∈ rest.map Prod.fst, ExpertGoes G.file G.cfg layer e)
      (runExperts G o ops layer logits xin ids rest acc : Exec V S _) := by
  induction rest generalizing acc with
  | nil => exact .pure _ (by simp [Except.toOption])
  | cons e rest ih =>
    rw [List.map_cons, List.forall_mem_cons]
    unfold runExperts
    refine .step (Q := fun _ => True) (runExpert_goes ho logits xin ids e.1 acc)
      (fun _ => trivial) (fun r hr => ?_) fun r _ hr => ?_
    · cases r with
      | error st => cases hr
      | ok acc => exact ih acc
    · cases r with
      | error st => exact settles_failed
      | ok acc => exact absurd rfl hr

theorem finishMoe_adds (acc : V) (shared : Bool) (s : Work V S) :
    (finishMoe G o ops layer acc shared s).1.1 = .ok ∧
      ∃ y, (finishMoe G o ops layer acc shared s).1.2.hidden = ops.add y s.res := by
  obtain ⟨y, hy⟩ := @postNorm_stateless K V S G o ops .moePostNorm layer
    (blk layer "ffn_post_norm.weight") acc
  unfold finishMoe
  rw [hy.value]
  exact ⟨rfl, y, rfl⟩

/-- The routed block succeeds exactly when the router goes and the experts it selects, and what it
makes is added to its input. -/
theorem moeFfnLayer_goes (ho : DeviceOnly o) (s : Work V S) :
    ((moeFfnLayer G o ops layer s).1.1 = .ok ↔ MoeGoesFrom G.file G.cfg ops layer
        (normed G.file ops (blk layer "ffn_norm.weight") s.hidden)) ∧
      ((moeFfnLayer G o ops layer s).1.1 = .ok →
        ∃ y, (moeFfnLayer G o ops layer s).1.2.hidden = ops.add y s.hidden) := by
  unfold moeFfnLayer MoeGoesFrom
  dsimp only
  rw [Logged.bind_value, Logged.get_value]
  dsimp only
  rw [Logged.bind_value, Logged.modify_value]
  dsimp only
  rw [(normalise_normed ho _).value]
  cases hrouter : find G.file (blk layer "ffn_gate_inp.weight") with
  | none =>
    rw [(acquireWeight_missing hrouter).value]
    simp
  | some t =>
  rw [(acquireWeight_ok ho hrouter).value]
  dsimp only
  rw [(mmDispatch_yields ho _ _).value]
  simp only [Option.some.injEq, exists_eq_left']
  by_cases hst : cpuStatus
      (weight (blk layer "ffn_gate_inp.weight") t G.cfg.nExpert G.cfg.nEmbd) = .ok
  case neg =>
    rw [if_pos hst]
    simp [hst]
  rw [if_neg (not_not.2 hst)]
  by_cases hused : 16 < G.cfg.nExpertUsed
  · rw [if_pos hused]
    simp [refuse, Nat.not_le.2 hused]
  rw [if_neg hused, (allocate_true ho).value, if_pos rfl, Logged.bind_value, Logged.modify_value]
  dsimp only
  generalize hids : moeRoute _ G.cfg.nExpert G.cfg.nExpertUsed = ids
  generalize product ops _ (normed G.file ops _ s.hidden) = logits
  generalize normed G.file ops _ s.hidden = xin
  obtain ⟨r, hr⟩ := @runExperts_stateless K V S G o ops layer logits xin ids ids.zipIdx ops.zero
  have hgoes := @runExperts_goes K V S G o ops layer ho logits xin ids ids.zipIdx ops.zero s
  have herrs := @runExperts_raises K V S ops layer G o logits xin ids ids.zipIdx ops.zero s
  rw [hr s, List.zipIdx_map_fst] at hgoes
  rw [hr s] at herrs
  rw [hr.value]
  cases r with
  | error st =>
    have hne : st ≠ .ok := herrs st rfl
    have hnot : ¬ ∀ e ∈ ids, ExpertGoes G.file G.cfg layer e :=
      fun hall => Bool.false_ne_true (hgoes.2 hall).1
    exact ⟨iff_of_false hne fun h => hnot h.2.2, fun h => absurd h hne⟩
  | ok acc =>
    have hall : ∀ e ∈ ids, ExpertGoes G.file G.cfg layer e := hgoes.1 ⟨rfl, fun _ _ => trivial⟩
    obtain ⟨acc', hacc⟩ := @addShared_stateless K V S G o ops layer xin acc
    dsimp only
    rw [hacc.value]
    have hfinish := fun s' => @finishMoe_adds K V S G o ops layer acc'.1 acc'.2 s'
    exact ⟨iff_of_true (hfinish _).1 ⟨hst, Nat.not_lt.1 hused, hall⟩, fun _ => (hfinish _).2⟩

theorem mmDispatch_agree (ho : DeviceOnly o) (m : Matmul) (x : V) : Logged.Agree
    (mmDispatch G o ops place layer index m x : Exec V S _)
    (mmDispatch G.host o ops place layer index m x) := by
  intro s
  rw [mmDispatch_yields ho m x s, mmDispatch_yields ho m x s]

theorem runExpert_agree (ho : DeviceOnly o) (logits xin : V) (ids : List Nat) (expert : Nat)
    (acc : V) : Logged.Agree
      (runExpert G o ops layer logits xin ids index expert acc : Exec V S _)
      (runExpert G.host o ops layer logits xin ids index expert acc) := by
  unfold runExpert
  refine .bind (.refl _) fun gate => ?_
  cases gate with
  | error st => exact .refl _
  | ok gate =>
  refine .bind (.refl _) fun up => ?_
  cases up with
  | error st => exact .refl _
  | ok up =>
  refine .bind (mmDispatch_agree ho _ _) fun a => .ite (.refl _) ?_
  refine .bind (mmDispatch_agree ho _ _) fun b => .ite (.refl _) ?_
  refine .bind (.refl _) fun down => ?_
  cases down with
  | error st => exact .refl _
  | ok down => exact .bind (mmDispatch_agree ho _ _) fun y => .refl _

theorem runExperts_agree (ho : DeviceOnly o) (logits xin : V) (ids : List Nat)
    (rest : List (Nat × Nat)) (acc : V) : Logged.Agree
      (runExperts G o ops layer logits xin ids rest acc : Exec V S _)
      (runExperts G.host o ops layer logits xin ids rest acc) := by
  induction rest generalizing acc with
  | nil => exact .refl _
  | cons e rest ih =>
    unfold runExperts
    refine .bind (runExpert_agree ho logits xin ids e.1 acc) fun r => ?_
    cases r with
    | error st => exact .refl _
    | ok acc => exact ih acc

theorem addShared_agree (ho : DeviceOnly o) (xin acc : V) : Logged.Agree
    (addShared G o ops layer xin acc : Exec V S _)
    (addShared G.host o ops layer xin acc) := by
  unfold addShared
  refine .ite ?_ (.refl _)
  unfold runShared
  refine .bind (.refl _) fun gate => .bind (.refl _) fun tg => ?_
  cases tg with
  | error st => exact .refl _
  | ok tg =>
  refine .bind (.refl _) fun tu => ?_
  cases tu with
  | error st => exact .refl _
  | ok tu =>
  refine .bind (mmDispatch_agree ho _ _) fun a => .ite (.refl _) ?_
  refine .bind (mmDispatch_agree ho _ _) fun b => .ite (.refl _) ?_
  refine .bind (.refl _) fun td => ?_
  cases td with
  | error st => exact .refl _
  | ok td => exact .bind (mmDispatch_agree ho _ _) fun y => .refl _

/-- A routed block is the same with and without a device. -/
theorem moeFfnLayer_agree (ho : DeviceOnly o) : Logged.Agree
    (moeFfnLayer G o ops layer : Exec V S _) (moeFfnLayer G.host o ops layer) := by
  unfold moeFfnLayer
  refine .bind (.refl _) fun w => .bind (.refl _) fun _ => .bind (.refl _) fun xin => ?_
  refine .bind (.refl _) fun t => ?_
  cases t with
  | error st => exact .refl _
  | ok t =>
  refine .bind (mmDispatch_agree ho _ _) fun logits => .ite (.refl _) ?_
  refine .ite (.refl _) (.bind (.refl _) fun ready => .ite ?_ (.refl _))
  refine .bind (.refl _) fun _ => .bind (runExperts_agree ho _ _ _ _ _) fun r => ?_
  cases r with
  | error st => exact .refl _
  | ok acc => exact .bind (addShared_agree ho xin acc) fun acc => .refl _

end Moe

end VgEngine.Decode
