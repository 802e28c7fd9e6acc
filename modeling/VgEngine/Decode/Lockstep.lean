import VgEngine.Decode.Decode
import VgEngine.Lib.Coupled

/-! Two decodes of one token under the same outcomes, from states with related pages. Everything
else that a decode on the CPU reads it has written before, so the two run in step as long as
their attention sees the same rows. -/
namespace VgEngine.Decode
open Lib Bytes Gguf Model

/-- Only reads fail: every buffer is allocated. -/
def ReadsOnly (o : Outcomes) : Prop := ∀ c : Call, c.use ≠ .acquire → o c = .ok

section Calls

variable {K : Type*} {V S : Type} {g : Graph K} {o : Outcomes} {ops : Ops V S}
variable {place : Place} {layer index pos : Nat}

theorem acquireWeight_stateless (name : List UInt8) :
    Logged.Stateless (acquireWeight g o place layer index name : Exec V S _) := by
  unfold acquireWeight
  cases find g.file name with
  | none => exact (Logged.Stateless.log _).bind fun _ => .pure _
  | some t => exact (Logged.Stateless.log _).bind fun _ => .pure _

theorem acquireWeight_yields {name : List UInt8} {t : GgufTensor} (hfind : find g.file name = some t)
    (hok : o ⟨place, .acquire, layer, index⟩ = .ok) :
    Logged.Yields (acquireWeight g o place layer index name : Exec V S _) (.ok t) := by
  intro s
  simp [acquireWeight, hfind, hok]

theorem acquireOptional_stateless (name : List UInt8) :
    Logged.Stateless (acquireOptional g o place layer index name : Exec V S _) := by
  unfold acquireOptional
  cases find g.file name with
  | none => exact .pure _
  | some t => exact (Logged.Stateless.log _).bind fun _ => .pure _

theorem allocate_stateless : Logged.Stateless (allocate o place layer index : Exec V S _) :=
  (Logged.Stateless.log _).bind fun _ => .pure _

theorem allocate_yields (ho : ReadsOnly o) :
    Logged.Yields (allocate o place layer index : Exec V S _) true := by
  intro s
  simp [allocate, ho ⟨place, .buffer, layer, index⟩ (by simp)]

theorem cpuMatmul_stateless (m : Matmul) (x : V) :
    Logged.Stateless (cpuMatmul o ops place layer index m x : Exec V S _) := by
  unfold cpuMatmul
  apply (Logged.Stateless.log _).bind
  intro _
  apply Logged.Stateless.ite (.pure _)
  apply Logged.Stateless.ite (.pure _)
  exact (Logged.Stateless.log _).bind fun _ => .pure _

theorem dispatch_stateless (gpu : Bool) (m : Matmul) (x : V) :
    Logged.Stateless (dispatch o ops place layer index gpu m x : Exec V S _) := by
  unfold dispatch
  apply Logged.Stateless.ite _ (cpuMatmul_stateless m x)
  exact (Logged.Stateless.log _).bind fun _ => .pure _

theorem normalise_stateless (name : List UInt8) (x : V) :
    Logged.Stateless (normalise g o ops layer place name x : Exec V S _) := by
  unfold normalise
  apply (acquireWeight_stateless name).bind
  intro r
  cases r <;> exact .pure _

theorem shapedNorm_stateless (name : List UInt8) (width : Nat) (x : V) :
    Logged.Stateless (shapedNorm g o ops layer place name width x : Exec V S _) := by
  unfold shapedNorm
  apply (acquireOptional_stateless name).bind
  intro r
  cases r <;> exact .pure _

theorem postNorm_stateless (name : List UInt8) (x : V) :
    Logged.Stateless (postNorm g o ops layer place name x : Exec V S _) :=
  .ite (shapedNorm_stateless name _ x) (.pure _)

theorem addBias_stateless (name : List UInt8) (width : Nat) (x : V) :
    Logged.Stateless (addBias g o ops layer place name width x : Exec V S _) := by
  unfold addBias
  apply Logged.Stateless.ite _ (.pure _)
  apply (acquireOptional_stateless name).bind
  intro r
  cases r <;> exact .pure _

theorem rotateHead_stateless (name : List UInt8) (width : Nat) (x : V) (h : Nat) :
    Logged.Stateless (rotateHead g o ops layer pos place name width x h : Exec V S _) := by
  unfold rotateHead
  apply (acquireOptional_stateless name).bind
  intro r
  cases r <;> exact .pure _

theorem projectRows_stateless (m : Matmul) (gpu : Bool) (old : Option V) (x : V) :
    Logged.Stateless (projectRows g o ops layer place m gpu old x : Exec V S _) := by
  unfold projectRows
  apply Logged.Stateless.ite
  · exact (Logged.Stateless.log _).bind fun _ => .pure _
  · exact (dispatch_stateless _ m x).bind fun _ => .pure _

/-- With its buffer, a projection has a result. -/
theorem project_yields (ho : ReadsOnly o) (biasPlace : Place) (bias : String) (m : Matmul)
    (gpu : Bool) (old : Option V) (x : V) : ∃ y, Logged.Yields
      (project g o ops layer place biasPlace bias m gpu old x : Exec V S _) (some y) := by
  have hbuffer : Logged.Yields (projectBuffer o layer place old : Exec V S _) true := by
    cases old with
    | none => exact allocate_yields ho
    | some y => exact .pure true
  obtain ⟨y, hrows⟩ := @projectRows_stateless K V S g o ops place layer m gpu old x
  obtain ⟨z, hbias⟩ := @addBias_stateless K V S g o ops biasPlace layer (blk layer bias) m.outDim y
  refine ⟨z, ?_⟩
  unfold project
  apply hbuffer.bind
  exact hrows.bind (hbias.bind (.pure _))

end Calls

section Attention

variable {K : Type*} {V S : Type} {g : VgGguf} {cfg : ModelConfig K} {o : Outcomes} {ops : Ops V S}
variable {layer pos : Nat} {same : V → V → Prop} {rel : S → S → Prop}

/-- What two decodes share between two layers. -/
structure Beside (same : V → V → Prop) (rel : S → S → Prop) (s s' : Work V S) : Prop where
  hidden : s.hidden = s'.hidden
  logits : same s.logits s'.logits
  kv : rel s.kv s'.kv
  cold : s.gpuDense ≠ some true
  cold' : s'.gpuDense ≠ some true

/-- What they share within a block. -/
structure Within (same : V → V → Prop) (rel : S → S → Prop) (s s' : Work V S) : Prop
    extends Beside same rel s s' where
  res : s.res = s'.res

/-- What they share once the query is projected. -/
structure Queried (same : V → V → Prop) (rel : S → S → Prop) (s s' : Work V S) : Prop
    extends Within same rel s s' where
  qkv : s.qkv = s'.qkv

/-- What they share once the heads have attended. -/
structure Attended (same : V → V → Prop) (rel : S → S → Prop) (s s' : Work V S) : Prop
    extends Within same rel s s' where
  att : s.att = s'.att

/-- The pages with one for the position. -/
def withPage (ops : Ops V S) (layer pos kvd : Nat) (kv : S) : S :=
  if ops.pageMissing layer pos kv then ops.addPage layer pos kvd true true kv else kv

/-- The pages without the one that leaves the window. -/
def withoutPage (cfg : ModelConfig K) (ops : Ops V S) (layer pos : Nat) (kv : S) : S :=
  if cfg.slidingWindow ≤ pos ∧ 0 < cfg.slidingWindow then ops.evict layer pos kv else kv

/-- What `storeRow` does to the pages when no allocation fails. -/
def storeEffect (cfg : ModelConfig K) (ops : Ops V S) (layer pos kvd : Nat) (k v : Option V)
    (kv : S) : S :=
  if pos < cfg.nCtx then
    ops.writeRow layer pos kvd k v (withPage ops layer pos kvd (withoutPage cfg ops layer pos kv))
  else withoutPage cfg ops layer pos kv

theorem addPage_value (ho : ReadsOnly o) (kvd : Nat) (s : Work V S) :
    (addPage o ops layer pos kvd s).1 = ((), { s with kv := withPage ops layer pos kvd s.kv }) := by
  have hbuffer (index : Nat) : o ⟨.page, .buffer, layer, index⟩ = .ok := ho _ (by simp)
  unfold addPage withPage
  rw [Logged.bind_value, Logged.get_value]
  dsimp only
  split
  · simp [allocate, hbuffer]
  · rfl

theorem storeRow_value (ho : ReadsOnly o) (k v : Option V) (kvd : Nat) (s : Work V S) :
    (storeRow (cpuGraph g cfg) o ops layer pos k v kvd s).1 =
      ((), { s with kv := storeEffect cfg ops layer pos kvd k v s.kv }) := by
  have hevict (s : Work V S) : (Logged.onlyIf (cfg.slidingWindow ≤ pos ∧ 0 < cfg.slidingWindow)
      (Logged.modify fun w => { w with kv := ops.evict layer pos w.kv }) s : _ × List Event).1 =
        ((), { s with kv := withoutPage cfg ops layer pos s.kv }) := by
    unfold Logged.onlyIf withoutPage
    split
    · rfl
    · rfl
  unfold storeRow storeEffect
  change ((Logged.onlyIf (cfg.slidingWindow ≤ pos ∧ 0 < cfg.slidingWindow) _ >>= fun _ =>
    if pos < cfg.nCtx then _ else _) s).1 = _
  rw [Logged.bind_value, hevict]
  split
  · rw [Logged.bind_value, addPage_value ho]
    rfl
  · rfl

theorem grow_stateless {place : Place} {need cap index : Nat} :
    Logged.Stateless (grow o place layer index need cap : Exec V S _) :=
  .ite (allocate_stateless.bind fun _ => .pure _) (.pure _)

/-- The room of a buffer is not shared, but nothing is read from it. -/
theorem growQkv_coupled (index kvd : Nat) {R : Work V S → Work V S → Prop}
    (hR : ∀ s s' c c', R s s' → R { s with qkvCap := c } { s' with qkvCap := c' }) :
    Logged.Coupled R (growQkv (cpuGraph g cfg) o layer index kvd) fun _ => R := by
  have hvalue (s : Work V S) : ∃ c,
      (growQkv (cpuGraph g cfg) o layer index kvd s).1 = ((), { s with qkvCap := c }) := by
    let room : Exec V S Nat :=
      grow o .qkvWork layer index (wrap32 (qDim g cfg layer + 2 * kvd)) s.qkvCap
    obtain ⟨c, hc⟩ : Logged.Stateless room := grow_stateless
    have hroom : (growQkv (cpuGraph g cfg) o layer index kvd s).1 =
        ((), { (room s).1.2 with qkvCap := (room s).1.1 }) := rfl
    refine ⟨c, ?_⟩
    rw [hroom, hc s]
  intro s s' hs
  obtain ⟨c, hc⟩ := hvalue s
  obtain ⟨c', hc'⟩ := hvalue s'
  rw [hc, hc']
  exact ⟨rfl, hR s s' c c' hs⟩

/-- The attention projections of every layer are there. -/
structure Projected (g : VgGguf) (cfg : ModelConfig K) : Prop where
  query : ∀ l < cfg.nLayer, ∃ t, find g (blk l "attn_q.weight") = some t
  key : ∀ l < cfg.nLayer, ∃ t, find g (blk l "attn_k.weight") = some t
  value : ∀ l < cfg.nLayer, ∃ t, find g (blk l "attn_v.weight") = some t

/-- The read of a projection succeeds. -/
def Reads (o : Outcomes) (place : Place) (layer : Nat) : Prop :=
  o ⟨place, .acquire, layer, 0⟩ = .ok

/-- A row has the width of its layer, also where `KV_dim` is not taken from the projections. -/
def Laid (g : VgGguf) (cfg : ModelConfig K) (o : Outcomes) : Prop :=
  ∀ l < cfg.nLayer,
    (Reads o .attnK l ∨ keyDim g cfg l = wrap32 (cfg.kvHeads * cfg.headDim)) ∧
      (Reads o .attnV l ∨ kvDim g cfg l = keyDim g cfg l)

theorem acquireWeight_fails {place : Place} {name : List UInt8} {t : GgufTensor}
    (hfind : find g name = some t) (hread : ¬ Reads o place layer) :
    Logged.Yields (acquireWeight (cpuGraph g cfg) o place layer 0 name : Exec V S _)
      (.error (o ⟨place, .acquire, layer, 0⟩)) := by
  intro s
  simp [acquireWeight, cpuGraph, hfind, show ¬ o ⟨place, .acquire, layer, 0⟩ = .ok from hread]

theorem batchProjections_stateless (tq : GgufTensor) (qdim : Nat) (x : V) : Logged.Stateless
    (batchProjections (cpuGraph g cfg) o ops layer tq qdim x : Exec V S _) := by
  unfold batchProjections
  dsimp only
  split
  · exact .ite (.pure _) (.pure _)
  · exact .pure _

theorem queryStage_coupled (ho : ReadsOnly o) (tq : GgufTensor) (batch : Batch V) (x : V) :
    Logged.Coupled (Within same rel) (queryStage (cpuGraph g cfg) o ops layer pos tq batch x)
      fun _ => Queried same rel := by
  obtain ⟨q, hq⟩ := @project_yields K V S (cpuGraph g cfg) o ops .attnQ layer ho .qBias
    "attn_q.bias" (weight (blk layer "attn_q.weight") tq (qDim g cfg layer) cfg.nEmbd) batch.gpu
    batch.q x
  unfold queryStage
  apply Logged.Coupled.yields hq
  apply Logged.Coupled.after (.foldlM (fun x h => rotateHead_stateless _ _ x h) _ _)
  intro q
  apply Logged.Coupled.modify
  intro s s' hs
  exact ⟨⟨⟨hs.hidden, hs.logits, hs.kv, hs.cold, hs.cold'⟩, hs.res⟩, rfl⟩

theorem keyStage_coupled (ho : ReadsOnly o) (hproj : Projected g cfg) (hlaid : Laid g cfg o)
    (hl : layer < cfg.nLayer) (batch : Batch V) (x : V) :
    Logged.Coupled (Queried same rel) (keyStage (cpuGraph g cfg) o ops layer pos batch x)
      fun r s s' => Queried same rel s s' ∧ r.2 = keyDim g cfg layer ∧
        (Reads o .attnK layer → r.1.isSome = true) := by
  obtain ⟨t, hfind⟩ := hproj.key layer hl
  unfold keyStage
  by_cases hread : Reads o .attnK layer
  · apply Logged.Coupled.yields (acquireWeight_yields hfind hread)
    dsimp only
    apply Logged.Coupled.bind
    · apply Logged.Coupled.onlyIf
      · apply growQkv_coupled
        intro s s' c c' hs
        exact ⟨⟨⟨hs.hidden, hs.logits, hs.kv, hs.cold, hs.cold'⟩, hs.res⟩, hs.qkv⟩
      · exact fun s s' hs => hs
    · intro _
      obtain ⟨k, hk⟩ := @project_yields K V S (cpuGraph g cfg) o ops .attnK layer ho .kBias
        "attn_k.bias" (weight (blk layer "attn_k.weight") t (keyDim g cfg layer) cfg.nEmbd)
        batch.gpu batch.k x
      apply Logged.Coupled.yields hk
      apply Logged.Coupled.after (.foldlM (fun x h => rotateHead_stateless _ _ x h) _ _)
      intro k
      apply Logged.Coupled.pure
      exact fun s s' hs => ⟨hs, rfl, fun _ => rfl⟩
  · apply Logged.Coupled.yields (acquireWeight_fails hfind hread)
    apply Logged.Coupled.pure
    exact fun s s' hs =>
      ⟨hs, ((hlaid layer hl).1.resolve_left hread).symm, fun h => absurd h hread⟩

theorem valueStage_coupled (ho : ReadsOnly o) (hproj : Projected g cfg) (hlaid : Laid g cfg o)
    (hl : layer < cfg.nLayer) (batch : Batch V) (x : V) :
    Logged.Coupled (Queried same rel)
      (valueStage (cpuGraph g cfg) o ops layer batch (keyDim g cfg layer) x)
      fun r s s' => Queried same rel s s' ∧ r.2 = kvDim g cfg layer ∧
        (Reads o .attnV layer → r.1.isSome = true) := by
  obtain ⟨t, hfind⟩ := hproj.value layer hl
  unfold valueStage
  by_cases hread : Reads o .attnV layer
  · apply Logged.Coupled.yields (acquireWeight_yields hfind hread)
    dsimp only
    apply Logged.Coupled.bind
    · apply Logged.Coupled.onlyIf
      · apply growQkv_coupled
        intro s s' c c' hs
        exact ⟨⟨⟨hs.hidden, hs.logits, hs.kv, hs.cold, hs.cold'⟩, hs.res⟩, hs.qkv⟩
      · exact fun s s' hs => hs
    · intro _
      obtain ⟨v, hv⟩ := @project_yields K V S (cpuGraph g cfg) o ops .attnV layer ho .vBias
        "attn_v.bias" (weight (blk layer "attn_v.weight") t (kvDim g cfg layer) cfg.nEmbd)
        batch.gpu batch.v x
      apply Logged.Coupled.yields hv
      apply Logged.Coupled.pure
      exact fun s s' hs => ⟨hs, rfl, fun _ => rfl⟩
  · apply Logged.Coupled.yields (acquireWeight_fails hfind hread)
    apply Logged.Coupled.pure
    exact fun s s' hs =>
      ⟨hs, ((hlaid layer hl).2.resolve_left hread).symm, fun h => absurd h hread⟩

/-- The heads see the same rows. -/
def SameRows (ops : Ops V S) (layer pos kvd : Nat) (kv kv' : S) : Prop :=
  ∀ scored q, ops.attend layer pos kvd scored q kv = ops.attend layer pos kvd scored q kv'

/-- How a relation of pages goes through the layers of a decode: `rel l` holds before layer `l`. A
layer whose query is not read leaves its pages; any other stores a row and then attends. -/
structure Carries (g : VgGguf) (cfg : ModelConfig K) (o : Outcomes) (ops : Ops V S) (pos : Nat)
    (rel : Nat → S → S → Prop) : Prop where
  skip : ∀ l < cfg.nLayer, ¬ Reads o .attnQ l → ∀ kv kv', rel l kv kv' → rel (l + 1) kv kv'
  store : ∀ l < cfg.nLayer, Reads o .attnQ l → ∀ k v : Option V,
    (Reads o .attnK l → k.isSome = true) → (Reads o .attnV l → v.isSome = true) →
    ∀ kv kv', rel l kv kv' →
      rel (l + 1) (storeEffect cfg ops l pos (kvDim g cfg l) k v kv)
        (storeEffect cfg ops l pos (kvDim g cfg l) k v kv') ∧
      SameRows ops l pos (kvDim g cfg l) (storeEffect cfg ops l pos (kvDim g cfg l) k v kv)
        (storeEffect cfg ops l pos (kvDim g cfg l) k v kv')

theorem attentionSubNorm_coupled (width : Nat) : Logged.Coupled (Attended same rel)
    (attentionSubNorm (cpuGraph g cfg) o ops layer width) fun _ => Attended same rel := by
  unfold attentionSubNorm
  apply Logged.Coupled.get
  · intro t t' ht
    rw [ht.att]
  · intro t
    apply Logged.Coupled.after (shapedNorm_stateless _ _ _)
    intro att
    apply Logged.Coupled.modify
    intro s s' hs
    exact ⟨⟨⟨hs.hidden, hs.logits, hs.kv, hs.cold, hs.cold'⟩, hs.res⟩, rfl⟩

theorem attendHeads_coupled (kvd width : Nat) (scored : Nat → Bool) : Logged.Coupled
    (fun s s' => Queried same rel s s' ∧ SameRows ops layer pos kvd s.kv s'.kv)
    (attendHeads (cpuGraph g cfg) o ops layer pos kvd width scored) fun _ => Attended same rel := by
  unfold attendHeads
  apply Logged.Coupled.bind (T := fun _ => Attended same rel)
  · apply Logged.Coupled.modify
    rintro s s' ⟨hs, hrows⟩
    refine ⟨⟨⟨hs.hidden, hs.logits, hs.kv, hs.cold, hs.cold'⟩, hs.res⟩, ?_⟩
    change ops.attend layer pos kvd scored s.qkv s.kv = ops.attend layer pos kvd scored s'.qkv s'.kv
    rw [hs.qkv, hrows]
  · intro _
    exact .onlyIf (attentionSubNorm_coupled width) fun _ _ hs => hs

theorem attendStage_coupled (kvd : Nat) : Logged.Coupled
    (fun s s' => Queried same rel s s' ∧ SameRows ops layer pos kvd s.kv s'.kv)
    (attendStage (cpuGraph g cfg) o ops layer pos kvd) fun _ => Attended same rel := by
  let width := wrap32 (cfg.nHead * headWidth g cfg layer)
  let heads : Exec V S Unit := do
    (List.range cfg.nHead).forM (scoreBuffer o layer)
    attendHeads (cpuGraph g cfg) o ops layer pos kvd width (scored (cpuGraph g cfg) o layer)
  have hheads : Logged.Coupled
      (fun s s' => Queried same rel s s' ∧ SameRows ops layer pos kvd s.kv s'.kv) heads
      fun _ => Attended same rel := by
    apply Logged.Coupled.after (.forM (fun h => .log _) _)
    intro _
    exact attendHeads_coupled kvd width _
  have hroom (s : Work V S) : ∃ c, (attendStage (cpuGraph g cfg) o ops layer pos kvd s).1 =
      (heads { s with attCap := c }).1 := by
    let room : Exec V S Nat := grow o .attnWork layer 0 width s.attCap
    obtain ⟨c, hc⟩ : Logged.Stateless room := grow_stateless
    have hvalue : (attendStage (cpuGraph g cfg) o ops layer pos kvd s).1 =
        (heads { (room s).1.2 with attCap := (room s).1.1 }).1 := rfl
    refine ⟨c, ?_⟩
    rw [hvalue, hc s]
  rintro s s' ⟨hs, hrows⟩
  obtain ⟨c, hc⟩ := hroom s
  obtain ⟨c', hc'⟩ := hroom s'
  rw [hc, hc']
  exact hheads _ _ ⟨⟨⟨⟨hs.hidden, hs.logits, hs.kv, hs.cold, hs.cold'⟩, hs.res⟩, hs.qkv⟩, hrows⟩

theorem projectOutput_coupled (t : GgufTensor) : Logged.Coupled (Attended same rel)
    (projectOutput (cpuGraph g cfg) o ops layer t) fun _ => Beside same rel := by
  unfold projectOutput
  apply Logged.Coupled.after allocate_stateless
  intro ready
  apply Logged.Coupled.ite
  · intro _
    apply Logged.Coupled.get
    · intro s s' hs
      rw [hs.att]
    · intro s
      dsimp only
      apply Logged.Coupled.after (dispatch_stateless _ _ _)
      intro y
      apply Logged.Coupled.after (postNorm_stateless _ _)
      intro y
      apply Logged.Coupled.modify
      intro t t' ht
      refine ⟨?_, ht.logits, ht.kv, ht.cold, ht.cold'⟩
      change ops.add t.res y = ops.add t'.res y
      rw [ht.res]
  · intro _
    exact .pure fun s s' hs => hs.toBeside

theorem outputStage_coupled : Logged.Coupled (Attended same rel)
    (outputStage (cpuGraph g cfg) o ops layer) fun _ => Beside same rel := by
  have hhead : moeFusedHeadOk (cpuGraph g cfg) = false := rfl
  have htail : layerTailWillFuse (cpuGraph g cfg) = false := rfl
  unfold outputStage
  simp only [hhead, htail, Bool.false_eq_true, if_false, Bool.false_and]
  apply Logged.Coupled.after (acquireWeight_stateless _)
  intro r
  cases r with
  | ok t => exact projectOutput_coupled t
  | error st =>
    apply Logged.Coupled.modify
    intro s s' hs
    exact ⟨hs.res, hs.logits, hs.kv, hs.cold, hs.cold'⟩

theorem storeRow_coupled {rel : Nat → S → S → Prop} {k v : Option V} (ho : ReadsOnly o)
    (hcarry : Carries g cfg o ops pos rel) (hl : layer < cfg.nLayer) (hread : Reads o .attnQ layer)
    (hk : Reads o .attnK layer → k.isSome = true) (hv : Reads o .attnV layer → v.isSome = true) :
    Logged.Coupled (Queried same (rel layer)) (storeRow (cpuGraph g cfg) o ops layer pos k v
        (kvDim g cfg layer))
      fun _ s s' => Queried same (rel (layer + 1)) s s' ∧
        SameRows ops layer pos (kvDim g cfg layer) s.kv s'.kv := by
  intro s s' hs
  obtain ⟨hkv, hrows⟩ := hcarry.store layer hl hread k v hk hv _ _ hs.kv
  rw [storeRow_value ho, storeRow_value ho]
  exact ⟨rfl, ⟨⟨⟨hs.hidden, hs.logits, hkv, hs.cold, hs.cold'⟩, hs.res⟩, hs.qkv⟩, hrows⟩

/-- A layer's attention carries the relation to the next layer. -/
theorem attentionLayer_coupled {rel : Nat → S → S → Prop} (ho : ReadsOnly o)
    (hproj : Projected g cfg) (hlaid : Laid g cfg o) (hcarry : Carries g cfg o ops pos rel)
    (hl : layer < cfg.nLayer) :
    Logged.Coupled (Beside same (rel layer)) (attentionLayer (cpuGraph g cfg) o ops layer pos)
      fun _ => Beside same (rel (layer + 1)) := by
  obtain ⟨tq, hfind⟩ := hproj.query layer hl
  unfold attentionLayer
  apply Logged.Coupled.get
  · intro s s' hs
    rw [hs.hidden]
  intro w
  apply Logged.Coupled.bind (T := fun _ => Within same (rel layer))
  · apply Logged.Coupled.modify
    intro s s' hs
    exact ⟨⟨hs.hidden, hs.logits, hs.kv, hs.cold, hs.cold'⟩, hs.hidden⟩
  intro _
  apply Logged.Coupled.after (normalise_stateless _ _)
  intro x
  apply Logged.Coupled.bind (T := fun _ => Within same (rel layer))
  · apply Logged.Coupled.modify
    intro s s' hs
    exact ⟨⟨rfl, hs.logits, hs.kv, hs.cold, hs.cold'⟩, hs.res⟩
  intro _
  by_cases hread : Reads o .attnQ layer
  · apply Logged.Coupled.yields (acquireWeight_yields hfind hread)
    dsimp only
    apply Logged.Coupled.bind
    · apply growQkv_coupled
      intro s s' c c' hs
      exact ⟨⟨hs.hidden, hs.logits, hs.kv, hs.cold, hs.cold'⟩, hs.res⟩
    intro _
    apply Logged.Coupled.after (batchProjections_stateless _ _ _)
    intro batch
    apply (queryStage_coupled ho tq batch x).bind
    intro _
    apply (keyStage_coupled ho hproj hlaid hl batch x).bind
    rintro ⟨k, kvd⟩
    dsimp only
    apply Logged.Coupled.given
    rintro ⟨rfl, hk⟩
    apply (valueStage_coupled ho hproj hlaid hl batch x).bind
    rintro ⟨v, kvd⟩
    dsimp only
    apply Logged.Coupled.given
    rintro ⟨rfl, hv⟩
    apply (storeRow_coupled ho hcarry hl hread hk hv).bind
    intro _
    exact (attendStage_coupled _).bind fun _ => outputStage_coupled
  · apply Logged.Coupled.yields (acquireWeight_fails hfind hread)
    apply Logged.Coupled.modify
    intro s s' hs
    exact ⟨hs.res, hs.logits, hcarry.skip layer hl hread _ _ hs.kv, hs.cold, hs.cold'⟩

end Attention

end VgEngine.Decode
