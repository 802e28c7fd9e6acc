import VgEngine.Vulkan.DenseRun

/-! A batch of matrix products in one command buffer. Requests with the same input share its staged
copies, and every request gets its own product, in whichever order the device runs the commands. -/
namespace VgEngine.Vulkan
open VgEngine.Lib CommandBuffer

section Model

/-- The pipelines of `dispatch_matvec_batch`; `q8_0` is the one that takes a quantized input. -/
inductive MatPipeline where
  | i8 | f16 | f32 | q4_0 | q8_0
deriving DecidableEq

/-- The shader for `f32` has no scales, and its output is where the others have their input. -/
instance : Shader MatPipeline where
  reads
    | .i8 | .f16 | .q4_0 => [0, 1, 2]
    | .f32 => [0, 1]
    | .q8_0 => [0, 1, 2, 3]
  writes
    | .i8 | .f16 | .q4_0 => [3]
    | .f32 => [2]
    | .q8_0 => [4]

/-- `VG_VKMatvecReq`. Inputs are known by their address. -/
structure MatvecReq where
  weights : Nat
  scales : Nat
  x : Nat
  inDim : UInt32
  outDim : UInt32

/-- The staged and the device-local copies of an input, plain and quantized. -/
structure Input where
  xStg : Nat
  xDev : Nat
  dStg : Nat
  dDev : Nat
  qStg : Nat
  qDev : Nat

/-- A request with its buffers; `fresh` unless it uses the input of an earlier one. -/
structure Entry where
  req : MatvecReq
  input : Input
  fresh : Bool
  yStg : Nat
  yDev : Nat

section Acquire

variable (driver : Driver) (pl : MatPipeline)

/-- The buffers of an input in the slots of request `i`. -/
def acquireInput (i : Nat) (r : MatvecReq) : Work Input := do
  let bytes := r.inDim.toUInt64 * 4
  let nb := (r.inDim / 32).toUInt64
  let xStg ← (fun v => v.acquirePool driver .scratch (6 * i) bytes : Work Nat)
  let xDev ← (fun v => v.acquirePool driver .devscratch (6 * i) bytes : Work Nat)
  if pl = .q8_0 then
    refuse (r.inDim / 32 = 0 ∨ r.inDim % 32 ≠ 0) .invalid
    let dStg ← (fun v => v.acquirePool driver .scratch (6 * i + 2) (nb * 4) : Work Nat)
    let qStg ← (fun v => v.acquirePool driver .scratch (6 * i + 3) (nb * 32) : Work Nat)
    let dDev ← (fun v => v.acquirePool driver .devscratch (6 * i + 2) (nb * 4) : Work Nat)
    let qDev ← (fun v => v.acquirePool driver .devscratch (6 * i + 3) (nb * 32) : Work Nat)
    pure ⟨xStg, xDev, dStg, dDev, qStg, qDev⟩
  else pure ⟨xStg, xDev, 0, 0, 0, 0⟩

/-- The first request before with the same input. -/
def reuseOf (done : List Entry) (r : MatvecReq) : Option Entry :=
  done.find? fun e => e.req.x = r.x && e.req.inDim = r.inDim

def shareInput (done : List Entry) (r : MatvecReq) : Work Input :=
  match reuseOf done r with
  | some e => pure e.input
  | none => acquireInput driver pl done.length r

def acquireEntry (done : List Entry) (r : MatvecReq) : Work Entry := do
  let i := done.length
  let bytes := r.outDim.toUInt64 * 4
  refuse (r.inDim = 0 ∨ r.outDim = 0) .invalid
  let input ← shareInput driver pl done r
  let yStg ← (fun v => v.acquirePool driver .scratch (6 * i + 1) bytes : Work Nat)
  let yDev ← (fun v => v.acquirePool driver .devscratch (6 * i + 1) bytes : Work Nat)
  pure ⟨r, input, (reuseOf done r).isNone, yStg, yDev⟩

def acquireEntries : List MatvecReq → List Entry → Work (List Entry)
  | [], done => pure done
  | r :: rs, done => do
    let e ← acquireEntry driver pl done r
    acquireEntries rs (done ++ [e])

/-- `dispatch_matvec_batch` up to its recording. -/
def dispatchMatvecBatch (reqs : List MatvecReq) : Work (List Entry) := do
  refuse (reqs = [] ∨ 1024 < reqs.length) .invalid
  acquireEntries driver pl reqs []

end Acquire

variable {F : Type}

/-- The input of a request goes to the device, unless it is there. -/
def Entry.inputOrders (pl : MatPipeline) (e : Entry) : List (Order MatPipeline F) :=
  let nb := (e.req.inDim / 32).toUInt64
  if e.fresh then
    .copy e.input.xStg e.input.xDev (e.req.inDim.toUInt64 * 4) 0 ::
      if pl = .q8_0 then
        [.copy e.input.dStg e.input.dDev (nb * 4) 0, .copy e.input.qStg e.input.qDev (nb * 32) 0]
      else []
  else []

/-- What the descriptor set of a request binds. -/
def Entry.bufs (pl : MatPipeline) (e : Entry) : List Nat :=
  if pl = .q8_0 then [e.req.weights, e.req.scales, e.input.dDev, e.input.qDev, e.yDev]
  else [e.req.weights, e.req.scales, e.input.xDev, e.yDev]

def Entry.push (pl : MatPipeline) (e : Entry) : List (PushConstant F) :=
  if pl = .q8_0 then [.uint e.req.outDim, .uint e.req.inDim]
  else [.uint 1, .uint e.req.inDim, .uint e.req.outDim]

def Entry.groups (pl : MatPipeline) (e : Entry) : UInt32 :=
  if pl = .q8_0 then (e.req.outDim + 7) / 8 else (e.req.outDim + 63) / 64

/-- The dispatch of a request and the way of its output back to the host. -/
def Entry.productOrders (pl : MatPipeline) (e : Entry) : List (Order MatPipeline F) :=
  [uploaded, .dispatch pl (e.bufs pl) (e.push pl) (e.groups pl), computed,
    .copy e.yDev e.yStg (e.req.outDim.toUInt64 * 4) 0, uploaded]

def batchOrders (pl : MatPipeline) (es : List Entry) : List (Order MatPipeline F) :=
  es.flatMap fun e => e.inputOrders pl ++ e.productOrders pl

end Model

section Property

/-- The buffers that a request acquired. -/
def Input.bufs (pl : MatPipeline) (x : Input) : List Nat :=
  if pl = .q8_0 then [x.qStg, x.qDev, x.dStg, x.dDev, x.xStg, x.xDev] else [x.xStg, x.xDev]

def Entry.acquired (pl : MatPipeline) (e : Entry) : List Nat :=
  (if e.fresh then e.input.bufs pl else []) ++ [e.yStg, e.yDev]

/-- All buffers of a batch are different, inputs are shared with earlier requests only, and the
weights are none of the buffers. -/
structure BatchApart (pl : MatPipeline) (es : List Entry) (cache : List Nat) : Prop where
  nodup : (es.flatMap (Entry.acquired pl)).Nodup
  shared : ∀ front e back, es = front ++ e :: back → e.fresh = false →
    ∃ e' ∈ front, e'.fresh = true ∧ e'.input = e.input ∧ e'.req.inDim = e.req.inDim
  weights : ∀ e ∈ es, ∀ b ∈ [e.req.weights, e.req.scales], b ∈ cache
  cached : ∀ b ∈ es.flatMap (Entry.acquired pl), b ∉ cache

variable {F α : Type} (K : Kernels MatPipeline F α)

/-- The product of a request. -/
def Kernels.product (pl : MatPipeline) (e : Entry) (m : Nat → α) : α :=
  let sent (bytes : UInt64) (src dst : Nat) : α := K.copy bytes 0 (m src) (m dst)
  let nb := (e.req.inDim / 32).toUInt64
  let x := if pl = .q8_0 then
      [sent (nb * 4) e.input.dStg e.input.dDev, sent (nb * 32) e.input.qStg e.input.qDev]
    else [sent (e.req.inDim.toUInt64 * 4) e.input.xStg e.input.xDev]
  K.main pl (e.groups pl) (e.push pl) (m e.req.weights :: m e.req.scales :: x) 0

/-- Every request finds its product in its staging buffer, and what is not a buffer of the batch is
as before. -/
def Kernels.BatchMakes (pl : MatPipeline) (es : List Entry) (m m' : Nat → α) : Prop :=
  (∀ e ∈ es, m' e.yStg = K.copy (e.req.outDim.toUInt64 * 4) 0 (K.product pl e m) (m e.yStg)) ∧
    ∀ b ∉ es.flatMap (Entry.acquired pl), m' b = m b

end Property

section Hazards

variable {F α : Type} {K : Kernels MatPipeline F α} {pl : MatPipeline} {e : Entry}
variable {es : List Entry}

/-- The way of an output back to the host. -/
def Kernels.back (K : Kernels MatPipeline F α) (e : Entry) : Job Stage Nat α :=
  K.copyBuffer e.yDev e.yStg (e.req.outDim.toUInt64 * 4) 0

/-- Behind a request all its jobs are settled, but for the last copy, which later copies do not wait
for. -/
theorem behind_request : ∀ f ∈ behind (start (K.items (e.inputOrders pl ++ e.productOrders pl))),
    f.2.2.Settled .compute ∧ (f.2.2.Settled .transfer ∨ f.1 = K.back e) := by
  unfold Entry.inputOrders Entry.productOrders
  cases e.fresh <;> by_cases hpl : pl = .q8_0 <;>
    simp [hpl, behind, start, items, Kernels.items, Kernels.item, Kernels.dispatch,
      Kernels.copyBuffer, Kernels.back, uploaded, computed, Reach.after, Reach.pass, Reach.start,
      Reach.settled_iff, Stage.read, Stage.write]

theorem left_batch (es : List Entry) : left (start (K.items (batchOrders pl es))) =
    es.flatMap fun e => left (start (K.items (e.inputOrders pl ++ e.productOrders pl))) := by
  induction es with
  | nil => rfl
  | cons e es ih =>
    rw [List.flatMap_cons, ← ih, ← left_append]
    simp [batchOrders, start, items_append]

/-- The copies of a request stay inside of its buffers. -/
theorem copies_inside : ∀ d ∈ left (start (K.items (e.inputOrders pl ++ e.productOrders pl))),
    d.stage = .transfer → ∀ b ∈ d.reads ++ d.writes, b ∈ e.acquired pl := by
  unfold Entry.inputOrders Entry.productOrders Entry.acquired Input.bufs
  cases e.fresh <;> by_cases hpl : pl = .q8_0 <;>
    simp [hpl, left, start, Kernels.items, Kernels.item, uploaded, computed, Kernels.dispatch,
      Kernels.copyBuffer]

theorem left_transfer : ∀ d ∈ left (start (K.items (batchOrders pl es))), d.stage = .transfer →
    ∀ b ∈ d.reads ++ d.writes, b ∈ es.flatMap (Entry.acquired pl) := by
  rw [left_batch]
  intro d hd hstage b hb
  obtain ⟨e, he, hd⟩ := List.mem_flatMap.1 hd
  exact List.mem_flatMap.2 ⟨e, he, copies_inside d hd hstage b hb⟩

/-- The last copy of a request has nothing to do with the copies of later requests. -/
theorem back_apart (h : (e.acquired pl ++ es.flatMap (Entry.acquired pl)).Nodup) :
    ∀ d ∈ left (start (K.items (batchOrders pl es))), d.stage = .transfer →
      ¬Conflict (K.back e) d := by
  intro d hd hstage
  have hout : ∀ b, b ∈ d.reads ∨ b ∈ d.writes → b ≠ e.yStg ∧ b ≠ e.yDev := by
    intro b hb
    have hmem := left_transfer d hd hstage b (List.mem_append.2 hb)
    have hdisjoint := (List.nodup_append.1 h).2.2
    exact ⟨(hdisjoint _ (by simp [Entry.acquired]) _ hmem).symm,
      (hdisjoint _ (by simp [Entry.acquired]) _ hmem).symm⟩
  rintro (⟨b, hb, hd⟩ | ⟨b, hb, hd⟩)
  · rw [List.mem_singleton.1 hb] at hd
    exact (hout _ hd).1 rfl
  · rcases List.mem_cons.1 hb with rfl | hb
    · exact (hout _ (Or.inr hd)).2 rfl
    · rw [List.mem_singleton.1 hb] at hd
      exact (hout _ (Or.inr hd)).1 rfl

theorem hazardFree_request (h : (e.acquired pl).Nodup) :
    HazardFree (K.items (e.inputOrders pl ++ e.productOrders pl)) := by
  refine Chained.hazardFree (s := .transfer) ?_ ?_
  · unfold Entry.inputOrders Entry.productOrders
    cases e.fresh <;> by_cases hpl : pl = .q8_0 <;>
      simp [hpl, Kernels.items, Kernels.item, Chained, Kernels.dispatch, Kernels.copyBuffer, uploaded,
        computed, Stage.read, Stage.write]
  · unfold Entry.inputOrders Entry.productOrders
    unfold Entry.acquired Input.bufs at h
    revert h
    cases e.fresh <;> by_cases hpl : pl = .q8_0 <;>
      simp [hpl, Kernels.items, Kernels.item, Apart, group, uploaded, computed]
    intros
    refine ⟨⟨?_, ?_⟩, ?_⟩ <;> apply copies_apart <;> first | assumption | (symm; assumption)

/-- No batch has a hazard. -/
theorem hazardFree_batch (h : (es.flatMap (Entry.acquired pl)).Nodup) :
    HazardFree (K.items (batchOrders pl es)) := by
  induction es with
  | nil => trivial
  | cons e es ih =>
    rw [List.flatMap_cons] at h
    have hrest := (List.nodup_append.1 h).2.1
    rw [batchOrders, List.flatMap_cons, items_append, hazardFree_append]
    refine ⟨hazardFree_request (List.nodup_append.1 h).1, ih hrest, fun f hf => ?_⟩
    obtain ⟨hcompute, htransfer⟩ := behind_request f hf
    refine compatible_of_settled fun d hd hconflict => ?_
    cases hstage : d.stage with
    | compute => exact hcompute
    | transfer =>
      refine htransfer.resolve_right fun hback => ?_
      exact back_apart h d hd hstage (hback ▸ hconflict)

end Hazards

section Values

variable {F α : Type} {K : Kernels MatPipeline F α} {pl : MatPipeline} {e : Entry}
variable {es : List Entry} {m m₁ : Nat → α}

/-- The input of a request is on the device. -/
def Kernels.InputReady (K : Kernels MatPipeline F α) (pl : MatPipeline) (x : Input) (inDim : UInt32)
    (m m₁ : Nat → α) : Prop :=
  let nb := (inDim / 32).toUInt64
  if pl = .q8_0 then
    m₁ x.dDev = K.copy (nb * 4) 0 (m x.dStg) (m x.dDev) ∧
      m₁ x.qDev = K.copy (nb * 32) 0 (m x.qStg) (m x.qDev)
  else m₁ x.xDev = K.copy (inDim.toUInt64 * 4) 0 (m x.xStg) (m x.xDev)

theorem inputOrders_run (h : (e.acquired pl).Nodup) (hfresh : e.fresh = true)
    (hm : ∀ b ∈ e.acquired pl, m₁ b = m b) :
    let r := recorded (K.items (e.inputOrders pl)) m₁
    K.InputReady pl e.input e.req.inDim m r ∧ ∀ b ∉ e.input.bufs pl, r b = m₁ b := by
  intro r
  unfold Kernels.InputReady r Entry.inputOrders
  unfold Entry.acquired Input.bufs at h hm
  unfold Input.bufs
  rw [hfresh] at h hm
  by_cases hpl : pl = .q8_0
  · simp [hpl] at h hm
    have hne : ¬e.input.dDev = e.input.qDev := fun heq => h.2.1.2.1 heq.symm
    refine ⟨by simp [hfresh, hpl, recorded_items_nil, hm, h, hne], fun b hb => ?_⟩
    simp [hpl] at hb
    simp [hfresh, hpl, recorded_items_nil, hb]
  · simp [hpl] at h hm
    refine ⟨by simp [hfresh, hpl, recorded_items_nil, hm], fun b hb => ?_⟩
    simp [hpl] at hb
    simp [hfresh, hpl, recorded_items_nil, hb]

/-- The dispatch reads the input where it is, whichever request sent it there. -/
theorem productOrders_run (hpl : pl ≠ .f32) (hne : e.yStg ≠ e.yDev)
    (hinput : K.InputReady pl e.input e.req.inDim m m₁)
    (hweights : ∀ b ∈ [e.req.weights, e.req.scales], m₁ b = m b) :
    let r := recorded (K.items (e.productOrders pl)) m₁
    r e.yStg = K.copy (e.req.outDim.toUInt64 * 4) 0 (K.product pl e m) (m₁ e.yStg) ∧
      ∀ b, b ≠ e.yStg → b ≠ e.yDev → r b = m₁ b := by
  have hwrites : bound (e.bufs pl) (Shader.writes pl) = [e.yDev] := by
    cases pl <;> first | exact absurd rfl hpl | rfl
  have hreads : K.main pl (e.groups pl) (e.push pl)
      ((bound (e.bufs pl) (Shader.reads pl)).map m₁) 0 = K.product pl e m := by
    simp only [List.forall_mem_cons] at hweights
    unfold Kernels.InputReady at hinput
    unfold Kernels.product
    cases pl <;> simp at hpl hinput <;>
      simp [Entry.bufs, Shader.reads, bound, hinput, hweights]
  have hdispatch : (K.dispatch pl (e.bufs pl) (e.push pl) (e.groups pl)).run m₁ =
      Function.update m₁ e.yDev (K.product pl e m) := by
    rw [dispatch_run hwrites, hreads]
  intro r
  have hr : r = Function.update (Function.update m₁ e.yDev (K.product pl e m)) e.yStg
      (K.copy (e.req.outDim.toUInt64 * 4) 0 (K.product pl e m) (m₁ e.yStg)) := by
    unfold r Entry.productOrders
    change recorded (K.items (computed :: [.copy e.yDev e.yStg (e.req.outDim.toUInt64 * 4) 0,
      uploaded])) ((K.dispatch pl (e.bufs pl) (e.push pl) (e.groups pl)).run m₁) = _
    rw [hdispatch]
    simp [recorded_items_nil, hne]
  rw [hr]
  exact ⟨by simp, fun b hs hd => by simp [hs, hd]⟩

/-- The memory behind some of the requests of a batch. -/
structure Kernels.Served (K : Kernels MatPipeline F α) (pl : MatPipeline) (done : List Entry)
    (m m₁ : Nat → α) : Prop where
  products : ∀ e ∈ done,
    m₁ e.yStg = K.copy (e.req.outDim.toUInt64 * 4) 0 (K.product pl e m) (m e.yStg)
  inputs : ∀ e ∈ done, e.fresh = true → K.InputReady pl e.input e.req.inDim m m₁
  kept : ∀ b ∉ done.flatMap (Entry.acquired pl), m₁ b = m b

theorem Kernels.InputReady.congr {x : Input} {inDim : UInt32} {m₂ : Nat → α}
    (h : K.InputReady pl x inDim m m₁) (hsame : ∀ b ∈ x.bufs pl, m₂ b = m₁ b) :
    K.InputReady pl x inDim m m₂ := by
  unfold Kernels.InputReady at h ⊢
  unfold Input.bufs at hsame
  by_cases hpl : pl = .q8_0
  · simp [hpl] at h hsame ⊢
    simp [hsame, h]
  · simp [hpl] at h hsame ⊢
    simp [hsame, h]

theorem request_run {done : List Entry} {cache : List Nat}
    (h : BatchApart pl (done ++ e :: es) cache) (hpl : pl ≠ .f32) (hm : K.Served pl done m m₁) :
    K.Served pl (done ++ [e]) m
      (recorded (K.items (e.inputOrders pl ++ e.productOrders pl)) m₁) := by
  have hnodup := h.nodup
  rw [List.flatMap_append, List.flatMap_cons] at hnodup
  obtain ⟨-, hrest, hapart⟩ := List.nodup_append.1 hnodup
  have hown : (e.acquired pl).Nodup := (List.nodup_append.1 hrest).1
  have hdone : ∀ b ∈ done.flatMap (Entry.acquired pl), b ∉ e.acquired pl := fun b hb hmem =>
    hapart b hb b (List.mem_append_left _ hmem) rfl
  have hnew : ∀ b ∈ e.acquired pl, m₁ b = m b := fun b hb =>
    hm.kept b fun hmem => hdone b hmem hb
  have hcached : ∀ b ∈ [e.req.weights, e.req.scales], b ∉ done.flatMap (Entry.acquired pl) ∧
      b ∉ e.acquired pl := by
    intro b hb
    have hcache := h.weights e (by simp) b hb
    refine ⟨fun hmem => h.cached b ?_ hcache, fun hmem => h.cached b ?_ hcache⟩
    · rw [List.flatMap_append]
      exact List.mem_append_left _ hmem
    · rw [List.flatMap_append, List.flatMap_cons]
      exact List.mem_append_right _ (List.mem_append_left _ hmem)
  have hbufs : ∀ e : Entry, e.fresh = true → ∀ b ∈ e.input.bufs pl, b ∈ e.acquired pl := by
    intro e hfresh b hb
    simp [Entry.acquired, hfresh, hb]
  have hout : e.yStg ∈ e.acquired pl ∧ e.yDev ∈ e.acquired pl := by simp [Entry.acquired]
  -- the input is there, sent by this request or by an earlier one
  obtain ⟨hinput, hkept⟩ : K.InputReady pl e.input e.req.inDim m
      (recorded (K.items (e.inputOrders pl)) m₁) ∧
        ∀ b, (e.fresh = true → b ∉ e.input.bufs pl) →
          recorded (K.items (e.inputOrders pl)) m₁ b = m₁ b := by
    cases hfresh : e.fresh with
    | true =>
      obtain ⟨hready, hkept⟩ := inputOrders_run (K := K) hown hfresh hnew
      exact ⟨hready, fun b hb => hkept b (hb rfl)⟩
    | false =>
      obtain ⟨e', he', hfresh', hsame, hdim⟩ := h.shared done e es rfl hfresh
      have hnone : recorded (K.items (e.inputOrders pl)) m₁ = m₁ := by
        unfold Entry.inputOrders
        rw [hfresh]
        rfl
      rw [hnone, ← hsame, ← hdim]
      exact ⟨hm.inputs e' he' hfresh', fun _ _ => rfl⟩
  rw [items_append, recorded_append]
  generalize recorded (K.items (e.inputOrders pl)) m₁ = m₂ at hinput hkept ⊢
  have hold : ∀ b ∉ e.acquired pl, m₂ b = m₁ b := fun b hb =>
    hkept b fun hfresh hmem => hb (hbufs e hfresh b hmem)
  have hne : e.yStg ≠ e.yDev := by
    unfold Entry.acquired at hown
    simpa using (List.nodup_append.1 hown).2.1
  have hyStg : e.fresh = true → ∀ b ∈ e.input.bufs pl, b ≠ e.yStg ∧ b ≠ e.yDev := by
    intro hfresh b hb
    unfold Entry.acquired at hown
    rw [if_pos hfresh] at hown
    have hdisjoint := (List.nodup_append.1 hown).2.2 b hb
    exact ⟨hdisjoint _ (by simp), hdisjoint _ (by simp)⟩
  obtain ⟨hproduct, hkept'⟩ := productOrders_run hpl hne hinput fun b hb => by
    rw [hold b (hcached b hb).2, hm.kept b (hcached b hb).1]
  generalize recorded (K.items (e.productOrders pl)) m₂ = r at hproduct hkept' ⊢
  have hframe : ∀ b ∉ e.acquired pl, r b = m₁ b := fun b hb =>
    (hkept' b (fun heq => hb (heq ▸ hout.1)) fun heq => hb (heq ▸ hout.2)).trans (hold b hb)
  have hearlier : ∀ e' ∈ done, ∀ b ∈ e'.acquired pl, r b = m₁ b := fun e' he' b hb =>
    hframe b (hdone b (List.mem_flatMap.2 ⟨e', he', hb⟩))
  refine ⟨fun e' he' => ?_, fun e' he' hfresh => ?_, fun b hb => ?_⟩
  · rcases List.mem_append.1 he' with he' | he'
    · rw [hearlier e' he' _ (by simp [Entry.acquired])]
      exact hm.products e' he'
    · obtain rfl := List.mem_singleton.1 he'
      rw [hproduct, hkept e'.yStg fun hfresh hmem => (hyStg hfresh _ hmem).1 rfl, hnew _ hout.1]
  · rcases List.mem_append.1 he' with he' | he'
    · exact (hm.inputs e' he' hfresh).congr fun b hb => hearlier e' he' b (hbufs e' hfresh b hb)
    · obtain rfl := List.mem_singleton.1 he'
      exact hinput.congr fun b hb => hkept' b (hyStg hfresh b hb).1 (hyStg hfresh b hb).2
  · rw [List.flatMap_append, List.mem_append, not_or, List.flatMap_singleton] at hb
    rw [hframe b hb.2, hm.kept b hb.1]

theorem batch_run {done : List Entry} {cache : List Nat} (h : BatchApart pl (done ++ es) cache)
    (hpl : pl ≠ .f32) (hm : K.Served pl done m m₁) :
    K.Served pl (done ++ es) m (recorded (K.items (batchOrders pl es)) m₁) := by
  induction es generalizing done m₁ with
  | nil =>
    rw [List.append_nil]
    exact hm
  | cons e es ih =>
    have hnext := request_run h hpl hm
    rw [batchOrders, List.flatMap_cons, items_append, recorded_append]
    rw [← List.singleton_append, ← List.append_assoc] at h ⊢
    exact ih h hnext

end Values

section Runs

variable {driver : Driver} {v v' : VK} {loose : List Nat} {n b slot : Nat} {p : Pool}
variable {cache : List CacheItem} {got : List ((Pool × Nat) × Nat)} {bufs : List Nat}
variable {bytes : UInt64} {pl : MatPipeline}

/-- The buffers acquired since, without those that were there before. -/
structure Taken (loose : List Nat) (n : Nat) (cache : List CacheItem)
    (got : List ((Pool × Nat) × Nat)) (bufs : List Nat) (v : VK) : Prop
    extends Acquired loose n cache got v where
  keys : (got.map Prod.fst).Nodup
  perm : bufs.Perm (got.map Prod.snd)

theorem Taken.acquire (h : Taken loose n cache got bufs v) (hs : slot < n)
    (hnew : (p, slot) ∉ got.map Prod.fst) (hrun : v.acquirePool driver p slot bytes = (.ok b, v')) :
    Taken loose n cache (((p, slot), b) :: got) (b :: bufs) v' :=
  ⟨h.toAcquired.acquire hs hnew hrun, List.nodup_cons.2 ⟨hnew, h.keys⟩, h.perm.cons b⟩

theorem Taken.nodup (h : Taken loose n cache got bufs v) : bufs.Nodup := by
  rw [h.perm.nodup_iff]
  refine List.Nodup.map_on (fun x hx y hy heq => ?_) (List.Nodup.of_map _ h.keys)
  have hslot := h.filled x hx
  rw [heq] at hslot
  obtain ⟨hpool, hsame⟩ := h.owned.slot_inj (h.filled y hy) hslot
  exact Prod.ext (Prod.ext hpool hsame) heq

theorem Taken.not_cached (h : Taken loose n cache got bufs v) (hb : b ∈ bufs) :
    b ∉ cache.map CacheItem.buf := by
  obtain ⟨e, he, rfl⟩ := List.mem_map.1 (h.perm.mem_iff.1 hb)
  exact h.toAcquired.not_cached he

/-- The requests whose buffers are there. -/
structure Batched (loose : List Nat) (n : Nat) (cache : List CacheItem) (pl : MatPipeline)
    (done : List Entry) (v : VK) : Prop where
  taken : ∃ got, Taken loose n cache got (done.flatMap (Entry.acquired pl)) v ∧
    ∀ e ∈ got, e.1.2 < 6 * done.length
  shared : ∀ front e back, done = front ++ e :: back → e.fresh = false →
    ∃ e' ∈ front, e'.fresh = true ∧ e'.input = e.input ∧ e'.req.inDim = e.req.inDim
  found : ∀ e ∈ done, ∃ e' ∈ done, e'.fresh = true ∧ e'.input = e.input ∧
    e'.req.inDim = e.req.inDim

theorem not_mem_below {i : Nat} (hgot : ∀ e ∈ got, e.1.2 < 6 * i) (hs : 6 * i ≤ slot) :
    (p, slot) ∉ got.map Prod.fst :=
  not_mem_slots fun e he => by
    have hlt := hgot e he
    omega

theorem Taken.of_perm {bufs' : List Nat} (h : Taken loose n cache got bufs v)
    (hperm : bufs'.Perm bufs) : Taken loose n cache got bufs' v :=
  ⟨h.toAcquired, h.keys, hperm.trans h.perm⟩

theorem acquireInput_taken {i : Nat} {r : MatvecReq} {x : Input}
    (h : Taken loose n cache got bufs v) (hn : 6 * (i + 1) ≤ n) (hgot : ∀ e ∈ got, e.1.2 < 6 * i)
    (hrun : (acquireInput driver pl i r).on v = (.ok x, v')) :
    ∃ got', Taken loose n cache got' (bufs ++ x.bufs pl) v' ∧
      ∀ e ∈ got', e.1.2 < 6 * (i + 1) ∧ e.1.2 ≠ 6 * i + 1 := by
  have hnew : ∀ p, ∀ slot, 6 * i ≤ slot → (p, slot) ∉ got.map Prod.fst := fun p slot hs =>
    not_mem_below hgot hs
  obtain ⟨xStg, v₁, hxs, hrun⟩ := Work.bind_ok hrun
  obtain ⟨xDev, v₂, hxd, hrun⟩ := Work.bind_ok hrun
  have h₁ := h.acquire (by omega) (hnew _ _ (by omega)) hxs
  have h₂ := h₁.acquire (by omega) (by simp [hnew]) hxd
  unfold Input.bufs
  by_cases hpl : pl = .q8_0
  · rw [if_pos hpl] at hrun ⊢
    obtain ⟨_, v₃, hrefuse, hrun⟩ := Work.bind_ok hrun
    obtain ⟨dStg, v₄, hds, hrun⟩ := Work.bind_ok hrun
    obtain ⟨qStg, v₅, hqs, hrun⟩ := Work.bind_ok hrun
    obtain ⟨dDev, v₆, hdd, hrun⟩ := Work.bind_ok hrun
    obtain ⟨qDev, v₇, hqd, hrun⟩ := Work.bind_ok hrun
    obtain ⟨rfl, rfl⟩ := Work.pure_ok hrun
    rw [← refuse_ok hrefuse] at h₂
    have h₃ := h₂.acquire (by omega) (by simp [hnew]) hds
    have h₄ := h₃.acquire (by omega) (by simp [hnew]) hqs
    have h₅ := h₄.acquire (by omega) (by simp [hnew]) hdd
    have h₆ := h₅.acquire (by omega) (by simp [hnew]) hqd
    refine ⟨_, h₆.of_perm ?_, ?_⟩
    · rw [List.perm_iff_count]
      intro b
      simp only [List.count_append, List.count_cons, List.count_nil]
      omega
    · simp only [List.forall_mem_cons]
      refine ⟨by omega, by omega, by omega, by omega, by omega, by omega, fun e he => ?_⟩
      have hlt := hgot e he
      omega
  · rw [if_neg hpl] at hrun ⊢
    obtain ⟨rfl, rfl⟩ := Work.pure_ok hrun
    refine ⟨_, h₂.of_perm ?_, ?_⟩
    · rw [List.perm_iff_count]
      intro b
      simp only [List.count_append, List.count_cons, List.count_nil]
      omega
    · simp only [List.forall_mem_cons]
      refine ⟨by omega, by omega, fun e he => ?_⟩
      have hlt := hgot e he
      omega

/-- The output of a request is in the second of its slots. -/
theorem outputs_taken {i : Nat} {yStg yDev : Nat} {v₁ v₂ : VK}
    (h : Taken loose n cache got bufs v) (hn : 6 * (i + 1) ≤ n)
    (hgot : ∀ e ∈ got, e.1.2 < 6 * (i + 1) ∧ e.1.2 ≠ 6 * i + 1)
    (hys : v.acquirePool driver .scratch (6 * i + 1) bytes = (.ok yStg, v₁))
    (hyd : v₁.acquirePool driver .devscratch (6 * i + 1) bytes = (.ok yDev, v₂)) :
    ∃ got', Taken loose n cache got' (bufs ++ [yStg, yDev]) v₂ ∧ ∀ e ∈ got', e.1.2 < 6 * (i + 1) := by
  have hnew : ∀ p, (p, 6 * i + 1) ∉ got.map Prod.fst := fun p =>
    not_mem_slots fun e he => (hgot e he).2
  have h₁ := h.acquire (by omega) (hnew _) hys
  have h₂ := h₁.acquire (by omega) (by simp [hnew]) hyd
  refine ⟨_, h₂.of_perm ?_, ?_⟩
  · rw [List.perm_iff_count]
    intro b
    simp only [List.count_append, List.count_cons, List.count_nil]
    omega
  · simp only [List.forall_mem_cons]
    exact ⟨by omega, by omega, fun e he => (hgot e he).1⟩

/-- One request more. -/
theorem Batched.snoc {done : List Entry} {e : Entry} (h : Batched loose n cache pl done v)
    (htaken : Taken loose n cache got (done.flatMap (Entry.acquired pl) ++ e.acquired pl) v')
    (hslots : ∀ e ∈ got, e.1.2 < 6 * (done.length + 1))
    (hshared : e.fresh = false → ∃ e' ∈ done, e'.fresh = true ∧ e'.input = e.input ∧
      e'.req.inDim = e.req.inDim) : Batched loose n cache pl (done ++ [e]) v' := by
  constructor
  · refine ⟨got, ?_, by simpa using hslots⟩
    rwa [List.flatMap_append, List.flatMap_singleton]
  · intro front e' back hsplit hfresh
    rcases List.append_eq_append_iff.1 hsplit with ⟨l, rfl, hl⟩ | ⟨l, rfl, hl⟩
    · obtain ⟨rfl, rfl, -⟩ : l = [] ∧ e = e' ∧ back = [] := by
        cases l <;> simp_all
      simpa using hshared hfresh
    · cases l with
      | nil =>
        obtain ⟨rfl, -⟩ : e' = e ∧ back = [] := by simpa using hl
        simpa using hshared hfresh
      | cons x l =>
        obtain ⟨rfl, -⟩ : e' = x ∧ back = l ++ [e] := by simpa using hl
        exact h.shared front e' l rfl hfresh
  · intro e' he'
    rcases List.mem_append.1 he' with he' | he'
    · obtain ⟨e'', he'', hrest⟩ := h.found e' he'
      exact ⟨e'', List.mem_append_left _ he'', hrest⟩
    · obtain rfl := List.mem_singleton.1 he'
      cases hfresh : e'.fresh with
      | true => exact ⟨e', by simp, hfresh, rfl, rfl⟩
      | false =>
        obtain ⟨e'', he'', hrest⟩ := hshared hfresh
        exact ⟨e'', List.mem_append_left _ he'', hrest⟩

/-- Request by request, the buffers of a batch. -/
theorem acquireEntry_batched {done : List Entry} {r : MatvecReq} {e : Entry}
    (h : Batched loose n cache pl done v) (hn : 6 * (done.length + 1) ≤ n)
    (hrun : (acquireEntry driver pl done r).on v = (.ok e, v')) :
    Batched loose n cache pl (done ++ [e]) v' ∧ e.req = r := by
  obtain ⟨got, htaken, hgot⟩ := h.taken
  obtain ⟨_, v₁, hrefuse, hrun⟩ := Work.bind_ok hrun
  obtain ⟨input, v₂, hinput, hrun⟩ := Work.bind_ok hrun
  obtain ⟨yStg, v₃, hys, hrun⟩ := Work.bind_ok hrun
  obtain ⟨yDev, v₄, hyd, hrun⟩ := Work.bind_ok hrun
  obtain ⟨rfl, rfl⟩ := Work.pure_ok hrun
  rw [refuse_ok hrefuse] at hinput
  refine ⟨?_, rfl⟩
  unfold shareInput at hinput
  cases hreuse : reuseOf done r with
  | none =>
    rw [hreuse] at hinput
    obtain ⟨got₁, htaken₁, hgot₁⟩ := acquireInput_taken htaken hn hgot hinput
    obtain ⟨got₂, htaken₂, hgot₂⟩ := outputs_taken htaken₁ hn hgot₁ hys hyd
    refine h.snoc (htaken₂.of_perm ?_) hgot₂ (by simp)
    simp [Entry.acquired]
  | some e₀ =>
    rw [hreuse] at hinput
    obtain ⟨rfl, rfl⟩ := Work.pure_ok hinput
    obtain ⟨got₂, htaken₂, hgot₂⟩ := outputs_taken htaken hn (fun e he => by
      have hlt := hgot e he
      omega) hys hyd
    refine h.snoc (htaken₂.of_perm ?_) hgot₂ fun _ => ?_
    · simp [Entry.acquired]
    · have hsame := List.find?_some hreuse
      obtain ⟨e', he', hfresh, hinput, hdim⟩ := h.found e₀ (List.mem_of_find?_eq_some hreuse)
      refine ⟨e', he', hfresh, hinput, ?_⟩
      simp at hsame
      rw [hdim, hsame.2]

theorem acquireEntries_batched {done es : List Entry} {reqs : List MatvecReq}
    (h : Batched loose n cache pl done v) (hn : 6 * (done.length + reqs.length) ≤ n)
    (hrun : (acquireEntries driver pl reqs done).on v = (.ok es, v')) :
    Batched loose n cache pl es v' ∧ es.map Entry.req = done.map Entry.req ++ reqs := by
  induction reqs generalizing v done with
  | nil =>
    obtain ⟨rfl, rfl⟩ := Work.pure_ok hrun
    exact ⟨h, by simp⟩
  | cons r reqs ih =>
    obtain ⟨e, v₁, he, hrun⟩ := Work.bind_ok hrun
    rw [List.length_cons] at hn
    obtain ⟨hnext, hreq⟩ := acquireEntry_batched h (by omega) he
    obtain ⟨hes, hreqs⟩ := ih hnext (by rw [List.length_append, List.length_singleton]; omega) hrun
    exact ⟨hes, by simpa [hreq] using hreqs⟩

variable {F α : Type}

/-- Three products of two inputs. -/
def threeReqs : List MatvecReq := [⟨2, 3, 1, 32, 32⟩, ⟨4, 5, 1, 32, 16⟩, ⟨6, 7, 9, 64, 8⟩]

/-- Kernels that add up what they read. -/
def summing : Kernels MatPipeline Unit Nat := ⟨fun _ _ _ inputs _ => inputs.sum, fun _ _ src _ => src⟩

end Runs

end VgEngine.Vulkan
