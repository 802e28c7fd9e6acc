import VgEngine.Decode.Ffn

/-! `vg_model_graph_decode`: the embedding, the layers on the device or one by one on the host,
and the output head. -/
namespace VgEngine.Decode
open Lib Bytes Gguf Model Single

section Decode

variable {K : Type*} [Field K] [LinearOrder K] {V S : Type} (g : Graph K) (o : Outcomes)
  (ops : Ops V S)

/-- The range check of `vg_gguf_read`. -/
def readable (t : GgufTensor) (offset size : Nat) : Bool := offset ≤ t.nbytes && size ≤ t.nbytes - offset

/-- The bytes of a row of `n_embd` elements. A row of floats is counted in 32 bits. -/
def rowBytes (q : QuantInfo) (D : Nat) : Nat :=
  if q.kind = 0 then wrap32 (4 * D) else D / q.blockSize * q.bytesPerBlock

/-- The checks of `vg_dequantize_row` on a row of whole blocks. -/
def dequantizeStatus (q : QuantInfo) (D : Nat) : Status :=
  if D = 0 then .invalid
  else if D % q.blockSize ≠ 0 then .format
  else if supportedScalar q.kind = false then .unsupported
  else .ok

/-- `vg_model_graph_embed`. -/
def modelGraphEmbed (token : Int) : Exec V S Status := do
  if token < 0 ∨ g.cfg.nVocab ≤ token then refuse .invalid
  else match find g.file (txt "token_embd.weight") with
  | none => refuse .invalid
  | some t =>
  match quantInfo t.ggmlType with
  | none => refuse .unsupported
  | some q => do
  let size := rowBytes q g.cfg.nEmbd
  let c : Call := ⟨.embedding, .acquire, 0, 0⟩
  if ← allocate o .embedding 0 0 then
    if readable t (token.toNat * size % 2 ^ 64) size = false then refuse .range
    else do
      Logged.log (.call c (o c ≠ .ok))
      if o c ≠ .ok then pure (o c)
      else if q.kind ≠ 0 ∧ dequantizeStatus q g.cfg.nEmbd ≠ .ok then
        refuse (dequantizeStatus q g.cfg.nEmbd)
      else do
        Logged.modify fun w => { w with hidden := ops.embed token.toNat }
        pure .ok
  else pure .nomem

/-- The tensor of the output head: the embedding table where there is no other. -/
def headTensor : Option (List UInt8 × GgufTensor) :=
  match find g.file (txt "output.weight") with
  | some t => some (txt "output.weight", t)
  | none => (find g.file (txt "token_embd.weight")).map (Prod.mk (txt "token_embd.weight"))

/-- How the output head is read: `batch` rows at a time, each of `size` bytes, expanded with a
status that nothing looks at. -/
structure HeadRows where
  size : Nat
  batch : Nat
  expanded : Status

def headRowsOf (q : QuantInfo) : HeadRows :=
  { size := rowBytes q g.cfg.nEmbd
    batch := if q.kind = 0 then 1 else 256
    expanded := if q.kind = 0 then .ok else dequantizeStatus q g.cfg.nEmbd }

/-- The rows of a batch from row `v` on. -/
def HeadRows.count (r : HeadRows) (nVocab v : Nat) : Nat := min r.batch (nVocab - v)

/-- Whether the batch at row `v` is read. -/
def HeadRows.reads (r : HeadRows) (t : GgufTensor) (v : Nat) : Bool :=
  readable t (v * r.size % 2 ^ 64) (r.count g.cfg.nVocab v * r.size) &&
    decide (o ⟨.outputHead, .acquire, 0, v⟩ = .ok)

def headBatch (name : List UInt8) (t : GgufTensor) (r : HeadRows) (i : Nat) : Exec V S Unit := do
  let v := i * r.batch
  let count := r.count g.cfg.nVocab v
  Logged.log (.call ⟨.outputHead, .acquire, 0, v⟩ (!r.reads g o t v))
  Logged.onlyIf (r.reads g o t v = true) (Logged.log (.matmul ⟨.outputHead, .rows, 0, v⟩
    ⟨name, t, v * r.size % 2 ^ 64, count * r.size, count, g.cfg.nEmbd⟩ r.expanded))

/-- The rows of the output head; those of a batch that is not read get the least logit. -/
def headRows (name : List UInt8) (t : GgufTensor) (r : HeadRows) : Exec V S Unit := do
  (List.range ((g.cfg.nVocab + r.batch - 1) / r.batch)).forM (headBatch g o name t r)
  let rows := fun v =>
    decide (v < g.cfg.nVocab ∧ r.reads g o t (v / r.batch * r.batch) ∧ r.expanded = .ok)
  Logged.modify fun w => { w with logits := ops.logits rows w.hidden }

/-- The output head on the host. -/
def hostHead (name : List UInt8) (t : GgufTensor) : Exec V S Unit := do
  match quantInfo t.ggmlType with
  | none => Logged.log (.skipped .outputHead 0)
  | some q => do
    if ← allocate o .outputHead 0 0 then headRows g o ops name t (headRowsOf g q)
    else pure ()

/-- The output norm and the output head. -/
def outputHead : Exec V S Unit := do
  let w ← Logged.get
  let x ← normalise g o ops 0 .outputNorm (txt "output_norm.weight") w.hidden
  Logged.modify fun w => { w with hidden := x }
  match headTensor g with
  | none => do
    Logged.log (.skipped .outputHead 0)
    Logged.modify fun w => { w with logits := ops.zero }
  | some (name, t) => do
    let m := weight name t g.cfg.nVocab g.cfg.nEmbd
    if g.vk && g.source && t.ggmlType = 8 && vkSliceAccepts m && works o 0 .outputHead .device
    then do
      Logged.log (.matmul ⟨.outputHead, .device, 0, 0⟩ m .ok)
      Logged.modify fun w => { w with logits := ops.logits (fun _ => true) x }
    else hostHead g o ops name t

/-- The soft cap of the logits. -/
def finish : Exec V S Status := do
  Logged.onlyIf (0 < g.cfg.logitSoftcap)
    (Logged.modify fun w => { w with logits := ops.softcap w.logits })
  pure .ok

/-- The layers one by one, up to the first whose feed-forward block fails. -/
def hostLayers (pos : Nat) : List Nat → Exec V S Status
  | [] => pure .ok
  | l :: ls => do
    attentionLayer g o ops l pos
    let st ← ffnLayer g o ops l
    if st ≠ .ok then pure st else hostLayers pos ls

/-- The weights that the dense path takes to be Q8_0 matrices, with the sizes it assumes. -/
def denseWeights (layer : Nat) : List (List UInt8 × Nat × Nat) :=
  let D := g.cfg.nEmbd
  let FF := g.cfg.nFf
  let Q := attentionDim g
  let KV := initialKvDim g
  [(blk layer "attn_q.weight", Q, D), (blk layer "attn_k.weight", KV, D),
   (blk layer "attn_v.weight", KV, D), (blk layer "attn_output.weight", D, Q),
   (blk layer "ffn_gate.weight", FF, D), (blk layer "ffn_up.weight", FF, D),
   (blk layer "ffn_down.weight", D, FF)]

/-- `gpu_dense_ok`. -/
def gpuDenseOk : Bool :=
  let cfg := g.cfg
  g.vk && !g.lora && g.gpuAttn && cfg.hasGateUp && !cfg.hasBiases &&
    !hasTensor g "blk.0.attn_q_norm.weight" && !hasTensor g "blk.0.attn_k_norm.weight" &&
    !(cfg.hasPostNorm || 0 < cfg.attnLogitSoftcap || 0 < cfg.logitSoftcap) &&
    hasTensor g "blk.0.ffn_gate.weight" && hasTensor g "blk.0.attn_norm.weight" &&
    hasTensor g "blk.0.ffn_norm.weight" && attentionDim g = cfg.nEmbd &&
    cfg.nHead % cfg.kvHeads = 0 && cfg.nEmbd % 32 = 0 && cfg.nFf % 32 = 0 &&
    attentionDim g % 32 = 0 &&
    (denseWeights g 0).all fun w => (find g.file w.1).any fun t => t.ggmlType = 8

/-- The positions that the device cache has room for. -/
def denseCap : Nat := min g.cfg.nCtx g.gpuCtx

/-- `dense_gpu_layer_forward`: whether a layer could be prepared for a position. -/
def densePrepared (pos layer : Nat) : Bool :=
  let ok := fun (use : Use) (i : Nat) => decide (o ⟨.dense, use, layer, i⟩ = .ok)
  (denseWeights g layer).zipIdx.all (fun (w, i) => (find g.file w.1).isSome &&
      ok .acquire i && q8Accepts w.2.1 w.2.2 && ok .device i) &&
    (find g.file (blk layer "attn_norm.weight")).isSome && ok .acquire 7 && ok .device 7 &&
    (find g.file (blk layer "ffn_norm.weight")).isSome && ok .acquire 8 && ok .device 8 &&
    pos < denseCap g && ok .buffer 0

/-- Whether the output norm and head could be prepared for the device. -/
def denseHeadPrepared : Bool :=
  (headTensor g).any fun (_, t) => t.ggmlType = 8 &&
    (find g.file (txt "output_norm.weight")).isSome && q8Accepts g.cfg.nVocab g.cfg.nEmbd &&
    works o 0 .denseHead .acquire && works o 0 .denseHead .buffer

/-- How far the dense path got. -/
inductive Dense where
  | failed | layers | logits
deriving DecidableEq

/-- All the layers in one submit, with the output head where it could be prepared. -/
def denseForward (pos : Nat) : Exec V S Dense := do
  let prepared := works o 0 .dense .rows && (List.range g.cfg.nLayer).all (densePrepared g o pos)
  let run : Exec V S Unit := Logged.modify fun w =>
    let r := ops.dense pos w.hidden w.kv
    { w with hidden := r.1, kv := r.2 }
  if prepared && denseHeadPrepared g o && works o 0 .denseHead .device then do
    run
    Logged.modify fun w => { w with logits := ops.denseLogits w.hidden }
    pure .logits
  else if prepared && works o 1 .denseHead .device then do
    run
    pure .layers
  else do
    Logged.modify fun w => { w with gpuDense := some false }
    pure .failed

/-- The dense path where `gpu_dense` allows it; the flag is computed once. -/
def denseStage (pos : Nat) : Exec V S Dense := do
  Logged.modify fun w => { w with gpuDense := some (w.gpuDense.getD (gpuDenseOk g)) }
  let w ← Logged.get
  if w.gpuDense = some true then denseForward g o ops pos
  else pure .failed

/-- The layers and the output head on the host. -/
def hostPath (pos : Nat) : Exec V S Status := do
  let st ← hostLayers g o ops pos (List.range g.cfg.nLayer)
  if st ≠ .ok then pure st
  else do
    outputHead g o ops
    finish g ops

/-- `vg_model_graph_decode`. The host path takes the position through a float. -/
def modelGraphDecode (token kvPos : Int) : Exec V S Status := do
  if g.cfg.nCtx ≤ toUInt32 kvPos then refuse .range
  else do
    let st ← modelGraphEmbed g o ops token
    if st ≠ .ok then pure st
    else do
      match ← denseStage g o ops (toUInt32 kvPos) with
      | .logits => finish g ops
      | .layers => do
        outputHead g o ops
        finish g ops
      | .failed => hostPath g o ops (toSingle (toUInt32 kvPos))

end Decode

end VgEngine.Decode
