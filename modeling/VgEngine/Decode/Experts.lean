import VgEngine.Decode.Products

/-! The routed block on the CPU when no call fails: whether it succeeds, and whether it reads
inside its tensors, depends on the experts that the router selects. -/
namespace VgEngine.Decode
open Lib Bytes Gguf Model

section Route

variable {greater : Nat → Nat → Bool} {e x : Nat} {l : List Nat}

theorem mem_insertExpert : x ∈ insertExpert greater e l ↔ x = e ∨ x ∈ l := by
  induction l with
  | nil => simp [insertExpert]
  | cons d ds ih =>
    unfold insertExpert
    split
    · rw [List.mem_cons, ih, List.mem_cons]
      tauto
    · rw [List.mem_cons]

theorem mem_foldl_insertExpert {es : List Nat} :
    x ∈ es.foldl (fun sorted e => insertExpert greater e sorted) l → x ∈ es ∨ x ∈ l := by
  induction es generalizing l with
  | nil => exact Or.inr
  | cons d es ih =>
    intro h
    rcases ih h with h | h
    · exact Or.inl (List.mem_cons_of_mem _ h)
    · rcases mem_insertExpert.1 h with rfl | h
      · exact Or.inl List.mem_cons_self
      · exact Or.inr h

theorem moeRoute_lt {experts used : Nat} (h : x ∈ moeRoute greater experts used) :
    x < experts := by
  have hmem := List.mem_reverse.1 (List.mem_of_mem_take h)
  rcases mem_foldl_insertExpert hmem with hx | hx
  · exact List.mem_range.1 hx
  · cases hx

/-- An order in which one expert comes before all others. -/
def favours (e : Nat) : Nat → Nat → Bool := fun x _ => x == e

theorem insertExpert_favoured : insertExpert (favours e) e l = l ++ [e] := by
  induction l with
  | nil => rfl
  | cons d ds ih => simp [insertExpert, favours, ← ih]

theorem insertExpert_other (h : x ≠ e) : insertExpert (favours e) x l = x :: l := by
  cases l with
  | nil => rfl
  | cons d ds => simp [insertExpert, favours, h]

theorem foldl_insertExpert_favoured {es : List Nat} (h : e ∈ es ∨ ∃ l', l = l' ++ [e]) :
    ∃ l', es.foldl (fun sorted e' => insertExpert (favours e) e' sorted) l = l' ++ [e] := by
  induction es generalizing l with
  | nil => simpa using h
  | cons d es ih =>
    apply ih
    by_cases hd : d = e
    · right
      refine ⟨l, ?_⟩
      rw [hd]
      exact insertExpert_favoured
    · rcases h with h | ⟨l', rfl⟩
      · left
        exact (List.mem_cons.1 h).resolve_left (Ne.symm hd)
      · right
        exact ⟨d :: l', insertExpert_other hd⟩

/-- The router can select every expert. -/
theorem mem_moeRoute_favours {experts used : Nat} (he : e < experts) (hused : 0 < used) :
    e ∈ moeRoute (favours e) experts used := by
  obtain ⟨l', hl⟩ := foldl_insertExpert_favoured (e := e) (l := [])
    (Or.inl (List.mem_range.2 he))
  unfold moeRoute
  rw [hl, List.reverse_append, List.reverse_singleton, List.singleton_append]
  obtain ⟨n, rfl⟩ := Nat.exists_eq_add_of_lt hused
  rw [List.take_succ_cons]
  exact List.mem_cons_self

end Route

section Contract

variable {K : Type*} (g : VgGguf) (cfg : ModelConfig K) (layer : Nat)

/-- The slice of an expert, where its tensor has one. -/
def expertSlice (kind : String) (expert outDim inDim : Nat) : Option Matmul :=
  let name := blk layer (kind ++ "_exps.weight")
  (find g name).bind fun t =>
    let stride := expertStride t outDim inDim
    let experts := if 3 ≤ t.nDims then dim t 2 else 1
    if experts ≤ expert ∨ stride = 0 ∨ t.nbytes < (expert + 1) * stride % 2 ^ 64 then none
    else some ⟨name, t, expert * stride % 2 ^ 64, stride, outDim, inDim⟩

/-- An expert has a slice of each of its three tensors, and they can be multiplied by. -/
def ExpertRuns (expert : Nat) : Prop :=
  ∃ gate, expertSlice g layer "ffn_gate" expert cfg.nFf cfg.nEmbd = some gate ∧
  ∃ up, expertSlice g layer "ffn_up" expert cfg.nFf cfg.nEmbd = some up ∧
    gate.Runs ∧ up.Runs ∧
  ∃ down, expertSlice g layer "ffn_down" expert cfg.nEmbd cfg.nFf = some down ∧ down.Runs

/-- A weight is there and can be multiplied by. -/
def WeightRuns (name : List UInt8) (outDim inDim : Nat) : Prop :=
  ∃ t, find g name = some t ∧ (weight name t outDim inDim).Runs

/-- The shared expert, in the models that have one, can be run. -/
def SharedRuns : Prop :=
  ∃ tg, find g (blk layer "ffn_gate_shexp.weight") = some tg ∧
  ∃ tu, find g (blk layer "ffn_up_shexp.weight") = some tu ∧
    (weight (blk layer "ffn_gate_shexp.weight") tg cfg.nFf cfg.nEmbd).Runs ∧
    (weight (blk layer "ffn_up_shexp.weight") tu cfg.nFf cfg.nEmbd).Runs ∧
    WeightRuns g (blk layer "ffn_down_shexp.weight") cfg.nEmbd cfg.nFf

end Contract

section Rules

variable {K : Type*} {V S α β : Type} {g : VgGguf} {cfg : ModelConfig K} {ops : Ops V S}
variable {kind : FfnKind} {place : Place} {layer index : Nat} {good : β → Prop}

/-- The errors of a result are errors. -/
def Errs (r : Except Status α) : Prop := ∀ st, r = .error st → st ≠ .ok

theorem Errs.ok (a : α) : Errs (.ok a : Except Status α) := nofun

theorem Errs.error {st : Status} (h : st ≠ .ok) : Errs (.error st : Except Status α) := by
  rintro st' ⟨⟩
  exact h

theorem acquireWeight_meets (name : List UInt8) :
    Logged.Meets (Event.Good kind) (fun r => r.toOption = find g name ∧ Errs r) True
      (acquireWeight (cpuGraph g cfg) allOk place layer index name : Exec V S _) := by
  unfold acquireWeight
  rw [cpuGraph_file]
  cases find g name with
  | none =>
    apply Logged.Meets.of_logs
    · exact (Logged.Logs.log trivial).bind fun _ => .pure _
    · exact fun _ => ⟨rfl, .error (by decide)⟩
  | some t =>
    apply Logged.Meets.of_logs
    · exact (Logged.Logs.log trivial).bind fun _ => .pure _
    · exact fun _ => ⟨rfl, .ok t⟩

theorem acquireExpert_meets (k : String) (expert outDim inDim : Nat) :
    Logged.Meets (Event.Good kind)
      (fun r => r.toOption = expertSlice g layer k expert outDim inDim ∧ Errs r) True
      (acquireExpert (cpuGraph g cfg) allOk layer place index k expert outDim inDim :
        Exec V S _) := by
  unfold acquireExpert expertSlice
  refine .known (acquireWeight_meets _) fun r hr => ?_
  dsimp only
  rw [← hr.1]
  cases r with
  | error st => exact .of_logs (.pure _) fun _ => ⟨rfl, .error (hr.2 st rfl)⟩
  | ok t =>
    dsimp only [Except.toOption, Option.bind_some]
    generalize (if 3 ≤ t.nDims then dim t 2 else 1) = experts
    split
    · apply Logged.Meets.of_logs
      · exact (Logged.Logs.log trivial).bind fun _ => .pure _
      · exact fun _ => ⟨rfl, .error (by decide)⟩
    · refine .known allocate_ready fun ready hready => ?_
      rw [if_pos hready]
      exact .of_logs (.pure _) fun _ => ⟨rfl, .ok _⟩

/-- A step whose result is known up to its error: the rest runs on what it finds. -/
theorem settles_found {P : Event → Prop} {m : Exec V S (Except Status α)} {found : Option α}
    {f : Except Status α → Exec V S β} {c : α → Prop}
    (h : Logged.Meets P (fun r => r.toOption = found ∧ Errs r) True m)
    (herror : ∀ st, st ≠ .ok → Logged.Settles P good False (f (.error st)))
    (hok : ∀ a, Logged.Settles P good (c a) (f (.ok a))) :
    Logged.Settles P good (∃ a, found = some a ∧ c a) (m >>= f) := by
  refine .known h fun r hr => ?_
  obtain ⟨rfl, herrs⟩ := hr
  cases r with
  | error st => exact (herror st (herrs st rfl)).iff (by simp [Except.toOption])
  | ok a => exact (hok a).iff (by simp [Except.toOption])

/-- A product with its status: the rest runs where it is made. -/
theorem settles_product {m : Matmul} {x : V} {stop go : Status × V → Exec V S β} {c : Prop}
    (hstop : ∀ y, y.1 ≠ .ok → Logged.Settles (Event.Good kind) good False (stop y))
    (hgo : ∀ y, Logged.Settles (Event.Good kind) good c (go y)) :
    Logged.Settles (Event.Good kind) good (m.Runs ∧ c)
      (mmDispatch (cpuGraph g cfg) allOk ops place layer index m x >>= fun y =>
        if y.1 ≠ .ok then stop y else go y) := by
  have hmade : Logged.Meets (Event.Good kind) (fun y => y.1 = cpuStatus m) m.Fits
      (mmDispatch (cpuGraph g cfg) allOk ops place layer index m x : Exec V S _) :=
    cpuMatmul_meets m x
  by_cases hst : cpuStatus m = .ok
  · have hbound : Logged.Settles (Event.Good kind) good (m.Fits ∧ c)
        (mmDispatch (cpuGraph g cfg) allOk ops place layer index m x >>= fun y =>
          if y.1 ≠ .ok then stop y else go y) := by
      refine .bind hmade fun y hy => ?_
      rw [if_neg (by rw [hy, hst]; decide)]
      exact hgo y
    exact hbound.iff (by simp [Matmul.Runs, Matmul.Fits, hst])
  · refine (Logged.Settles.ends (Q := fun y => y.1 = cpuStatus m) (fun s => (hmade s).1) fun y hy => ?_).iff ?_
    · rw [if_pos (by rwa [hy])]
      exact hstop y (by rwa [hy])
    · simp [Matmul.Runs, hst]

/-- The errors of a step are errors. -/
abbrev Raises (m : Exec V S (Except Status α)) : Prop := ∀ s, Errs (m s).1.1

theorem raises_found {α' : Type} {m : Exec V S (Except Status α')}
    {f : Except Status α' → Exec V S (Except Status α)} (h : Raises m)
    (herror : ∀ st, f (.error st) = pure (.error st)) (hok : ∀ a, Raises (f (.ok a))) :
    Raises (m >>= f) := by
  intro s
  rw [Logged.bind_value]
  have herrs := h s
  cases hr : (m s).1.1 with
  | error st =>
    rw [herror]
    exact .error (herrs st hr)
  | ok a => exact hok a _

theorem raises_ite {c : Prop} [Decidable c] {m m' : Exec V S (Except Status α)} (h : Raises m)
    (h' : Raises m') : Raises (if c then m else m') := by
  split
  · exact h
  · exact h'

theorem acquireWeight_raises {G : Graph K} {o : Outcomes} (name : List UInt8) :
    Raises (acquireWeight G o place layer index name : Exec V S _) := by
  intro s
  unfold acquireWeight
  cases find G.file name with
  | none => exact .error (by decide)
  | some t =>
    by_cases hok : o ⟨place, .acquire, layer, index⟩ = .ok
    · simp only [hok, Logged.bind_value, Logged.pure_value, if_true]
      exact .ok t
    · simp only [hok, Logged.bind_value, Logged.pure_value, if_false]
      exact .error hok

theorem acquireExpert_raises {G : Graph K} {o : Outcomes} (k : String)
    (expert outDim inDim : Nat) :
    Raises (acquireExpert G o layer place index k expert outDim inDim : Exec V S _) := by
  unfold acquireExpert
  refine raises_found (acquireWeight_raises _) (fun _ => rfl) fun t => raises_ite ?_ ?_
  · exact fun s => .error (by decide)
  · intro s
    rw [Logged.bind_value]
    split
    · exact .ok _
    · exact .error (by decide)

theorem raises_product {m : Exec V S (Status × V)}
    {go : Status × V → Exec V S (Except Status α)} (hgo : ∀ y, Raises (go y)) :
    Raises (m >>= fun y => if y.1 ≠ .ok then pure (.error y.1) else go y) := by
  intro s
  rw [Logged.bind_value]
  split
  next hst => exact .error hst
  next => exact hgo _ _

theorem settles_error {st : Status} :
    Logged.Settles (σ := Work V S) (Event.Good kind) (fun r : Except Status α => r.toOption.isSome)
      False (pure (.error st)) :=
  .pure _ (by simp [Except.toOption])

end Rules

section Block

variable {K : Type*} {V S : Type} {g : VgGguf} {cfg : ModelConfig K} {ops : Ops V S}
variable {kind : FfnKind} {layer : Nat}

theorem runExpert_settles (logits xin : V) (ids : List Nat) (index expert : Nat) (acc : V) :
    Logged.Settles (Event.Good kind) (fun r => r.toOption.isSome = true)
      (ExpertRuns g cfg layer expert)
      (runExpert (cpuGraph g cfg) allOk ops layer logits xin ids index expert acc :
        Exec V S _) := by
  unfold runExpert ExpertRuns
  dsimp only
  refine settles_found (acquireExpert_meets _ _ _ _) (fun _ _ => settles_error) fun gate => ?_
  refine settles_found (acquireExpert_meets _ _ _ _) (fun _ _ => settles_error) fun up => ?_
  refine settles_product (fun _ _ => settles_error) fun a => ?_
  refine settles_product (fun _ _ => settles_error) fun b => ?_
  refine settles_found (acquireExpert_meets _ _ _ _) (fun _ _ => settles_error) fun down => ?_
  refine Logged.Settles.iff (settles_product (c := True) (fun _ _ => settles_error) fun y => ?_)
    (and_iff_left trivial)
  exact .pure _ (by simp [Except.toOption])

theorem runExperts_settles (logits xin : V) (ids : List Nat) (rest : List (Nat × Nat)) (acc : V) :
    Logged.Settles (Event.Good kind) (fun r => r.toOption.isSome = true)
      (∀ e ∈ rest.map Prod.fst, ExpertRuns g cfg layer e)
      (runExperts (cpuGraph g cfg) allOk ops layer logits xin ids rest acc : Exec V S _) := by
  induction rest generalizing acc with
  | nil => exact .pure _ (by simp [Except.toOption])
  | cons e rest ih =>
    rw [List.map_cons, List.forall_mem_cons]
    unfold runExperts
    refine .step (Q := fun _ => True) (runExpert_settles logits xin ids e.2 e.1 acc)
      (fun _ => trivial) (fun r hr => ?_) fun r _ hr => ?_
    · cases r with
      | error st => cases hr
      | ok acc => exact ih acc
    · cases r with
      | error st => exact settles_error
      | ok acc => exact absurd rfl hr

theorem runExpert_raises {G : Graph K} {o : Outcomes} (logits xin : V) (ids : List Nat)
    (index expert : Nat) (acc : V) :
    Raises (runExpert G o ops layer logits xin ids index expert acc : Exec V S _) := by
  unfold runExpert
  dsimp only
  refine raises_found (acquireExpert_raises _ _ _ _) (fun _ => rfl) fun gate => ?_
  refine raises_found (acquireExpert_raises _ _ _ _) (fun _ => rfl) fun up => ?_
  refine raises_product fun a => raises_product fun b => ?_
  refine raises_found (acquireExpert_raises _ _ _ _) (fun _ => rfl) fun down => ?_
  exact raises_product fun y s => .ok _

theorem runExperts_raises {G : Graph K} {o : Outcomes} (logits xin : V) (ids : List Nat)
    (rest : List (Nat × Nat)) (acc : V) :
    Raises (runExperts G o ops layer logits xin ids rest acc : Exec V S _) := by
  induction rest generalizing acc with
  | nil => exact fun s => .ok acc
  | cons e rest ih =>
    exact raises_found (runExpert_raises logits xin ids e.2 e.1 acc) (fun _ => rfl) ih

/-- The shared expert runs, or it is left out. -/
theorem runShared_settles (xin acc : V) :
    Logged.Settles (Event.Good kind) (fun r => r.2 = true) (SharedRuns g cfg layer)
      (runShared (cpuGraph g cfg) allOk ops layer xin acc : Exec V S _) := by
  have hleft : Logged.Settles (σ := Work V S) (Event.Good kind)
      (fun r : V × Bool => r.2 = true) False (pure (acc, false)) := .pure _ (by simp)
  have hgate : Logged.Logs (Event.Good kind)
      (sharedGate (cpuGraph g cfg) allOk layer : Exec V S _) := by
    unfold sharedGate
    refine (acquireOptional_logs (passive_good kind) rfl _).bind fun r => ?_
    cases r <;> exact .pure _
  unfold runShared SharedRuns
  dsimp only
  refine .after hgate fun gate => ?_
  refine settles_found (acquireWeight_meets _) (fun _ _ => hleft) fun tg => ?_
  refine settles_found (acquireWeight_meets _) (fun _ _ => hleft) fun tu => ?_
  refine settles_product (fun _ _ => hleft) fun a => ?_
  refine settles_product (fun _ _ => hleft) fun b => ?_
  refine settles_found (acquireWeight_meets _) (fun _ _ => hleft) fun td => ?_
  refine Logged.Settles.iff (settles_product (c := True) (fun _ _ => hleft) fun y => ?_)
    (and_iff_left trivial)
  exact .pure _ (by simp)

theorem settles_status {st : Status} (h : st ≠ .ok) :
    Logged.Settles (σ := Work V S) (Event.Good kind) (· = .ok) False (pure st) :=
  .pure _ (by simp [h])

/-- The end of a routed block is good where the block took the shared expert of its kind. -/
theorem finishMoe_settles (acc : V) (shared : Bool) :
    Logged.Settles (Event.Good kind) (· = .ok) (.moe shared = kind)
      (finishMoe (cpuGraph g cfg) allOk ops layer acc shared : Exec V S _) := by
  unfold finishMoe
  refine .after (postNorm_logs (passive_good kind) rfl _ _) fun y => .after (.modify _) fun _ => ?_
  intro s
  simp [Event.Good]

/-- What a routed block needs: its router, as many experts as it has room for, the experts that
are selected (`c`), and its shared expert. -/
structure MoeRuns (g : VgGguf) (cfg : ModelConfig K) (layer : Nat) (c : Prop) : Prop where
  router : WeightRuns g (blk layer "ffn_gate_inp.weight") cfg.nExpert cfg.nEmbd
  used : cfg.nExpertUsed ≤ 16
  experts : c
  shared : cfg.hasSharedExpert = true → SharedRuns g cfg layer

theorem refuse_settles {st : Status} (h : st ≠ .ok) :
    Logged.Settles (σ := Work V S) (Event.Good kind) (· = .ok) False (refuse st) := by
  intro s
  simp [refuse, h]

theorem addShared_settles (xin acc : V) :
    Logged.Settles (Event.Good (.moe cfg.hasSharedExpert)) (· = .ok)
      (cfg.hasSharedExpert = true → SharedRuns g cfg layer)
      (do
        let acc ← addShared (cpuGraph g cfg) allOk ops layer xin acc
        finishMoe (cpuGraph g cfg) allOk ops layer acc.1 acc.2 : Exec V S _) := by
  unfold addShared
  by_cases hs : cfg.hasSharedExpert = true
  · rw [if_pos (show (cpuGraph g cfg).cfg.hasSharedExpert = true from hs), hs]
    refine Logged.Settles.iff (c := SharedRuns g cfg layer ∧ True) ?_ (by simp)
    refine .step (Q := fun _ => True) (runShared_settles xin acc) (fun _ => trivial)
      (fun r hr => ?_) fun r _ hr => ?_
    · exact (finishMoe_settles _ _).iff (by simp [hr])
    · exact (finishMoe_settles _ _).iff (by simp [hr])
  · rw [if_neg (show ¬ (cpuGraph g cfg).cfg.hasSharedExpert = true from hs)]
    refine .known (Q := (·.2 = false)) (.of_logs (.pure _) fun _ => rfl) fun r hr => ?_
    exact (finishMoe_settles _ _).iff (by simp [hr, hs])

/-- The routed block succeeds inside its tensors exactly when it has what it needs. -/
theorem moeFfnLayer_settles {c : Prop}
    (hroute : ∀ v, (∀ e ∈ moeRoute (ops.greater v) cfg.nExpert cfg.nExpertUsed,
      ExpertRuns g cfg layer e) ↔ c) :
    Logged.Settles (Event.Good (.moe cfg.hasSharedExpert)) (· = .ok) (MoeRuns g cfg layer c)
      (moeFfnLayer (cpuGraph g cfg) allOk ops layer : Exec V S _) := by
  have hneeds : MoeRuns g cfg layer c ↔
      ∃ t, find g (blk layer "ffn_gate_inp.weight") = some t ∧
        (weight (blk layer "ffn_gate_inp.weight") t cfg.nExpert cfg.nEmbd).Runs ∧
        cfg.nExpertUsed ≤ 16 ∧ c ∧ (cfg.hasSharedExpert = true → SharedRuns g cfg layer) := by
    constructor
    · rintro ⟨⟨t, ht, hruns⟩, hused, hc, hshared⟩
      exact ⟨t, ht, hruns, hused, hc, hshared⟩
    · rintro ⟨t, ht, hruns, hused, hc, hshared⟩
      exact ⟨⟨t, ht, hruns⟩, hused, hc, hshared⟩
  rw [hneeds]
  unfold moeFfnLayer
  dsimp only
  refine .after .get fun w => .after (.modify _) fun _ => ?_
  refine .after (normalise_logs (passive_good _) rfl _ _) fun xin => ?_
  refine settles_found (acquireWeight_meets _) (fun st hst => settles_status hst) fun t => ?_
  refine settles_product (fun y hy => settles_status hy) fun logits => ?_
  by_cases hused : 16 < cfg.nExpertUsed
  · rw [if_pos (show 16 < (cpuGraph g cfg).cfg.nExpertUsed from hused)]
    exact (refuse_settles (by decide)).iff (by simp [Nat.not_le.2 hused])
  · rw [if_neg (show ¬ 16 < (cpuGraph g cfg).cfg.nExpertUsed from hused)]
    refine Logged.Settles.iff ?_ (and_iff_right (Nat.not_lt.1 hused)).symm
    refine .known allocate_ready fun ready hready => ?_
    rw [if_pos hready]
    refine .after (.modify _) fun _ => ?_
    refine .step ((runExperts_settles _ _ _ _ _).iff ?_) (runExperts_raises _ _ _ _ _)
      (fun r hr => ?_) fun r herrs hr => ?_
    · rw [List.zipIdx_map_fst]
      exact hroute _
    · cases r with
      | error st => cases hr
      | ok acc => exact addShared_settles _ _
    · cases r with
      | error st => exact settles_status (herrs st rfl)
      | ok acc => exact absurd rfl hr

/-- A routed block ends well only with its last step. -/
theorem moeFfnLayer_ends {P : Event → Prop} (hfinish : ∀ acc shared, Logged.Settles P (· = .ok)
      False (finishMoe (cpuGraph g cfg) allOk ops layer acc shared : Exec V S _)) :
    Logged.Settles P (· = .ok) False
      (moeFfnLayer (cpuGraph g cfg) allOk ops layer : Exec V S _) := by
  have hfails {st : Status} (h : st ≠ .ok) :
      Logged.Settles (σ := Work V S) P (· = .ok) False (pure st) := .pure _ (by simp [h])
  unfold moeFfnLayer
  dsimp only
  refine .skip fun w => .skip fun _ => .skip fun xin => ?_
  refine .ends (acquireWeight_raises _) fun r hr => ?_
  cases r with
  | error st => exact hfails (hr st rfl)
  | ok t =>
  refine .skip fun logits => ?_
  split
  next hst => exact hfails hst
  next =>
  split
  next => exact .skip fun _ => hfails (by decide)
  next =>
  refine .ends (Q := (· = true)) (fun _ => rfl) fun ready hready => ?_
  rw [if_pos hready]
  refine .skip fun _ => ?_
  refine .ends (runExperts_raises _ _ _ _ _) fun r hr => ?_
  cases r with
  | error st => exact hfails (hr st rfl)
  | ok acc => exact .skip fun acc => hfinish _ _

end Block

end VgEngine.Decode
