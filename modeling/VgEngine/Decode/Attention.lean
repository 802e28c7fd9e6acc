import VgEngine.Decode.Machine

/-! `attention_layer`. The input of the layer and its normalised form share one buffer, so the
input is kept in `res` until the output projection is added to it. -/
namespace VgEngine.Decode
open Lib Bytes Gguf Model

section Attention

variable {K : Type*} {V S : Type} (g : Graph K) (o : Outcomes) (ops : Ops V S)
  (layer pos : Nat)

/-- `moe_fused_head_ok`. -/
def moeFusedHeadOk : Bool :=
  g.vk && !g.lora && g.layerTail && hasTensor g "blk.0.ffn_gate_inp.weight"

/-- Whether `attention_layer` leaves the output projection to the fused tail. -/
def layerTailWillFuse : Bool := g.layerTail && g.vk

/-- The norm of the input, or the input where the weight cannot be acquired. -/
def normalise (place : Place) (name : List UInt8) (x : V) : Exec V S V := do
  match ← acquireWeight g o place layer 0 name with
  | .ok _ => pure (ops.rmsnorm name x)
  | .error _ => pure x

/-- The biases of a projection, where the model has them in the right shape. -/
def addBias (place : Place) (name : List UInt8) (width : Nat) (x : V) : Exec V S V := do
  if g.cfg.hasBiases then do
    match ← acquireOptional g o place layer 0 name with
    | some t => pure (if t.ggmlType = 0 ∧ width ≤ dim t 0 then ops.bias name x else x)
    | none => pure x
  else pure x

/-- `n_rot` under the head width of the queries. -/
def rotated : Nat :=
  let width := headWidth g.file g.cfg layer
  if g.cfg.nRot = 0 then width else min g.cfg.nRot width

/-- The norm of a head, where the model has one, and its rotation. -/
def rotateHead (place : Place) (name : List UInt8) (width : Nat) (x : V) (h : Nat) :
    Exec V S V := do
  let rotate := ops.rope pos (rotated g layer) width h
  match ← acquireOptional g o place layer h name with
  | some _ => pure (rotate (ops.headNorm name h x))
  | none => pure (rotate x)

/-- A norm of `width` elements that is skipped where its weight has another shape. -/
def shapedNorm (place : Place) (name : List UInt8) (width : Nat) (x : V) : Exec V S V := do
  match ← acquireOptional g o place layer 0 name with
  | some t => pure (if t.nDims = 1 ∧ dim t 0 = width then ops.rmsnorm name x else x)
  | none => pure x

/-- The norm of the output of a block, in the models that have one. -/
def postNorm (place : Place) (name : List UInt8) (x : V) : Exec V S V := do
  if g.cfg.hasPostNorm then shapedNorm g o ops layer place name g.cfg.nEmbd x
  else pure x

/-- `KV_dim` before any projection is read. -/
def initialKvDim : Nat := wrap32 (g.cfg.kvHeads * g.cfg.headDim)

def weight (name : List UInt8) (t : GgufTensor) (outDim inDim : Nat) : Matmul :=
  ⟨name, t, 0, t.nbytes, outDim, inDim⟩

/-- What is left of the batched projection: whether it ran, and the buffers of the query, the
keys and the values. -/
structure Batch (V : Type) where
  gpu : Bool
  q : Option V
  k : Option V
  v : Option V

/-- The three projections in one submit, where all are Q8_0 and of the expected shape. -/
def batchProjections (tq : GgufTensor) (qdim : Nat) (x : V) : Exec V S (Batch V) := do
  let nq := blk layer "attn_q.weight"
  let nk := blk layer "attn_k.weight"
  let nv := blk layer "attn_v.weight"
  let width := initialKvDim g
  let ok := fun (place : Place) (use : Use) => decide (o ⟨place, use, layer, 0⟩ = .ok)
  match find g.file nk, find g.file nv with
  | some tk, some tv =>
    if g.vk && !g.lora && tq.ggmlType = 8 && ok .batchK .acquire && ok .batchV .acquire &&
        tk.ggmlType = 8 && tv.ggmlType = 8 && outDim g.file nk width = width &&
        outDim g.file nv width = width then
      let q := ok .batchQ .buffer
      let k := ok .batchK .buffer
      let v := ok .batchV .buffer
      let gpu := q && k && v && q8Accepts qdim g.cfg.nEmbd && q8Accepts width g.cfg.nEmbd &&
        ok .batchQ .device
      let out := fun (m : Matmul) => if gpu then ops.matmul m x else ops.junk
      pure ⟨gpu, if q then some (out (weight nq tq qdim g.cfg.nEmbd)) else none,
        if k then some (out (weight nk tk width g.cfg.nEmbd)) else none,
        if v then some (out (weight nv tv width g.cfg.nEmbd)) else none⟩
    else pure ⟨false, none, none, none⟩
  | _, _ => pure ⟨false, none, none, none⟩

/-- The buffer of a projection, which may be there already. -/
def projectBuffer (place : Place) (old : Option V) : Exec V S Bool :=
  match old with
  | some _ => pure true
  | none => allocate o place layer 0

/-- A projection with its adapter; the batch has made it already where `gpu` says so. -/
def projectRows (place : Place) (m : Matmul) (gpu : Bool) (old : Option V) (x : V) :
    Exec V S V := do
  if gpu then do
    Logged.log (.matmul ⟨place, .device, layer, 0⟩ m .ok)
    pure (old.getD ops.junk)
  else do
    let y ← dispatch o ops place layer 0 (g.vk && !g.lora) m x
    pure (loraApply g ops m.name m.outDim m.inDim x y.2)

/-- A projection with its biases. -/
def project (place biasPlace : Place) (bias : String) (m : Matmul) (gpu : Bool) (old : Option V)
    (x : V) : Exec V S (Option V) := do
  if ← projectBuffer o layer place old then do
    let y ← projectRows g o ops layer place m gpu old x
    let y ← addBias g o ops layer biasPlace (blk layer bias) m.outDim y
    pure (some y)
  else pure none

/-- The query projection: its heads are normalised and rotated in place. -/
def queryStage (tq : GgufTensor) (batch : Batch V) (x : V) : Exec V S Unit := do
  let qdim := qDim g.file g.cfg layer
  let m := weight (blk layer "attn_q.weight") tq qdim g.cfg.nEmbd
  match ← project g o ops layer .attnQ .qBias "attn_q.bias" m batch.gpu batch.q x with
  | none => pure ()
  | some q => do
    let q ← (List.range g.cfg.nHead).foldlM
      (rotateHead g o ops layer pos .qNorm (blk layer "attn_q_norm.weight")
        (headWidth g.file g.cfg layer)) q
    Logged.modify fun w => { w with qkv := q }

/-- `work_qkv` made large enough for a query and two rows of `kvd`. -/
def growQkv (index kvd : Nat) : Exec V S Unit := do
  let w ← Logged.get
  let cap ← grow o .qkvWork layer index (wrap32 (qDim g.file g.cfg layer + 2 * kvd)) w.qkvCap
  Logged.modify fun w => { w with qkvCap := cap }

/-- The keys of the position, and `KV_dim` as their projection gives it. -/
def keyStage (batch : Batch V) (x : V) : Exec V S (Option V × Nat) := do
  let name := blk layer "attn_k.weight"
  match ← acquireWeight g o .attnK layer 0 name with
  | .error _ => pure (batch.k, initialKvDim g)
  | .ok t => do
    let kvd := keyDim g.file g.cfg layer
    Logged.onlyIf (kvd ≠ initialKvDim g) (growQkv g o layer 1 kvd)
    let m := weight name t kvd g.cfg.nEmbd
    match ← project g o ops layer .attnK .kBias "attn_k.bias" m batch.gpu batch.k x with
    | none => pure (none, kvd)
    | some k => do
      let k ← (List.range g.cfg.kvHeads).foldlM
        (rotateHead g o ops layer pos .kNorm (blk layer "attn_k_norm.weight")
          (keyWidth g.file g.cfg layer)) k
      pure (some k, kvd)

def valueStage (batch : Batch V) (kvd : Nat) (x : V) : Exec V S (Option V × Nat) := do
  let name := blk layer "attn_v.weight"
  match ← acquireWeight g o .attnV layer 0 name with
  | .error _ => pure (batch.v, kvd)
  | .ok t => do
    let vd := outDim g.file name kvd
    Logged.onlyIf (vd ≠ kvd) (growQkv g o layer 2 vd)
    let m := weight name t vd g.cfg.nEmbd
    let v ← project g o ops layer .attnV .vBias "attn_v.bias" m batch.gpu batch.v x
    pure (v, vd)

/-- A fresh page for the position, where it has none. -/
def addPage (kvd : Nat) : Exec V S Unit := do
  let w ← Logged.get
  if ops.pageMissing layer pos w.kv then do
    let keys ← allocate o .page layer 0
    let values ← allocate o .page layer 1
    Logged.modify fun w => { w with kv := ops.addPage layer pos kvd keys values w.kv }
  else pure ()

/-- The page that leaves the window goes, and the row of the position is written. -/
def storeRow (k v : Option V) (kvd : Nat) : Exec V S Unit := do
  Logged.onlyIf (g.cfg.slidingWindow ≤ pos ∧ 0 < g.cfg.slidingWindow)
    (Logged.modify fun w => { w with kv := ops.evict layer pos w.kv })
  if pos < g.cfg.nCtx then do
    addPage o ops layer pos kvd
    Logged.modify fun w => { w with kv := ops.writeRow layer pos kvd k v w.kv }
  else pure ()

/-- The sub-norm of the attention, in the models that have one. -/
def attentionSubNorm (width : Nat) : Exec V S Unit := do
  let w ← Logged.get
  let att ← shapedNorm g o ops layer .attnSubNorm (blk layer "attn_sub_norm.weight") width w.att
  Logged.modify fun w => { w with att := att }

/-- The score buffer of a head; a head without one adds nothing. -/
def scoreBuffer (h : Nat) : Exec V S Unit :=
  let c : Call := ⟨.scores, .buffer, layer, h⟩
  Logged.log (.call c (o c ≠ .ok))

/-- The softmax over the rows of the pages, for the heads with a score buffer, and the sub-norm
after it. -/
def attendHeads (kvd width : Nat) (scored : Nat → Bool) : Exec V S Unit := do
  Logged.modify fun w => { w with att := ops.attend layer pos kvd scored w.qkv w.kv }
  Logged.onlyIf (g.cfg.hasSubNorm = true) (attentionSubNorm g o ops layer width)

/-- Whether a head has its score buffer. -/
def scored (h : Nat) : Bool := h < g.cfg.nHead && o ⟨.scores, .buffer, layer, h⟩ = .ok

def attendStage (kvd : Nat) : Exec V S Unit := do
  let width := wrap32 (g.cfg.nHead * headWidth g.file g.cfg layer)
  let w ← Logged.get
  let cap ← grow o .attnWork layer 0 width w.attCap
  Logged.modify fun w => { w with attCap := cap }
  (List.range g.cfg.nHead).forM (scoreBuffer o layer)
  attendHeads g o ops layer pos kvd width (scored g o layer)

/-- The output projection with its norm, on top of the input of the layer. -/
def projectOutput (t : GgufTensor) : Exec V S Unit := do
  if ← allocate o .attnOutput layer 0 then do
    let w ← Logged.get
    let name := blk layer "attn_output.weight"
    let width := wrap32 (g.cfg.nHead * headWidth g.file g.cfg layer)
    let m := weight name t g.cfg.nEmbd width
    let y ← dispatch o ops .attnOutput layer 0 (g.vk && !g.lora) m w.att
    let y := loraApply g ops name m.outDim m.inDim w.att y.2
    let y ← postNorm g o ops layer .attnPostNorm (blk layer "attn_post_norm.weight") y
    Logged.modify fun w => { w with hidden := ops.add w.res y }
  else pure ()

/-- The end of the layer: the projection here, or left to the fused head or tail. -/
def outputStage : Exec V S Unit := do
  let restore : Exec V S Unit := Logged.modify fun w => { w with hidden := w.res }
  if moeFusedHeadOk g then pure ()
  else if layerTailWillFuse g && !hasTensor g "blk.0.ffn_gate_inp.weight" then restore
  else do
    match ← acquireWeight g o .attnOutput layer 0 (blk layer "attn_output.weight") with
    | .ok t => projectOutput g o ops layer t
    | .error _ => restore

def attentionLayer : Exec V S Unit := do
  let w ← Logged.get
  Logged.modify fun w => { w with res := w.hidden }
  let x ← normalise g o ops layer .attnNorm (blk layer "attn_norm.weight") w.hidden
  Logged.modify fun w => { w with hidden := x }
  match ← acquireWeight g o .attnQ layer 0 (blk layer "attn_q.weight") with
  | .error _ => Logged.modify fun w => { w with hidden := w.res }
  | .ok tq => do
    growQkv g o layer 0 (initialKvDim g)
    let batch ← batchProjections g o ops layer tq (qDim g.file g.cfg layer) x
    queryStage g o ops layer pos tq batch x
    let (k, kvd) ← keyStage g o ops layer pos batch x
    let (v, kvd) ← valueStage g o ops layer batch kvd x
    storeRow g o ops layer pos k v kvd
    attendStage g o ops layer pos kvd
    outputStage g o ops layer

end Attention

end VgEngine.Decode
