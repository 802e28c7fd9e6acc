import VgEngine.Decode.Attention

/-! `moe_ffn_layer` and `ffn_layer`. -/
namespace VgEngine.Decode
open Lib Bytes Gguf Model

section Experts

variable {K : Type*} {V S : Type} (g : Graph K) (o : Outcomes) (ops : Ops V S) (layer : Nat)

/-- One step of the insertion sort: an expert moves past those with smaller logits. The list
is the part already sorted, its last expert first. -/
def insertExpert (greater : Nat → Nat → Bool) (e : Nat) : List Nat → List Nat
  | [] => [e]
  | d :: ds => if greater e d then d :: insertExpert greater e ds else e :: d :: ds

/-- `vg_model_graph_moe_route`: the first experts by their logits. -/
def moeRoute (greater : Nat → Nat → Bool) (experts used : Nat) : List Nat :=
  (((List.range experts).foldl (fun sorted e => insertExpert greater e sorted) []).reverse).take
    used

/-- `expert_stride`, in 64-bit arithmetic. -/
def expertStride (t : GgufTensor) (outDim inDim : Nat) : Nat :=
  match quantInfo t.ggmlType with
  | none => 0
  | some q => inDim * outDim / q.blockSize * q.bytesPerBlock % 2 ^ 64

/-- `acquire_expert`. A slice that the cache holds is one that was acquired this way before. -/
def acquireExpert (place : Place) (index : Nat) (kind : String) (expert outDim inDim : Nat) :
    Exec V S (Except Status Matmul) := do
  let name := blk layer (kind ++ "_exps.weight")
  match ← acquireWeight g o place layer index name with
  | .error st => pure (.error st)
  | .ok t => do
    let stride := expertStride t outDim inDim
    let experts := if 3 ≤ t.nDims then dim t 2 else 1
    if experts ≤ expert ∨ stride = 0 ∨ t.nbytes < (expert + 1) * stride % 2 ^ 64 then do
      Logged.log (.call ⟨place, .acquire, layer, index⟩ true)
      pure (.error .format)
    else do
      -- a transient lease is copied, so that the slice outlives it
      if ← allocate o place layer index then
        pure (.ok ⟨name, t, expert * stride % 2 ^ 64, stride, outDim, inDim⟩)
      else pure (.error .nomem)

/-- The three products of one expert, on top of the sum so far. -/
def runExpert (logits xin : V) (ids : List Nat) (index expert : Nat) (acc : V) :
    Exec V S (Except Status V) := do
  let D := g.cfg.nEmbd
  let FF := g.cfg.nFf
  match ← acquireExpert g o layer .expertGate index "ffn_gate" expert FF D with
  | .error st => pure (.error st)
  | .ok gate =>
  match ← acquireExpert g o layer .expertUp index "ffn_up" expert FF D with
  | .error st => pure (.error st)
  | .ok up => do
  let a ← mmDispatch g o ops .expertGate layer index gate xin
  if a.1 ≠ .ok then pure (.error a.1) else do
  let b ← mmDispatch g o ops .expertUp layer index up xin
  if b.1 ≠ .ok then pure (.error b.1) else do
  match ← acquireExpert g o layer .expertDown index "ffn_down" expert D FF with
  | .error st => pure (.error st)
  | .ok down => do
  let h := ops.swiglu a.2 b.2
  let y ← mmDispatch g o ops .expertDown layer index down h
  if y.1 ≠ .ok then pure (.error y.1)
  else pure (.ok (ops.addExpert logits ids index acc y.2))

/-- The selected experts in turn, up to the first that fails. -/
def runExperts (logits xin : V) (ids : List Nat) :
    List (Nat × Nat) → V → Exec V S (Except Status V)
  | [], acc => pure (.ok acc)
  | (expert, index) :: rest, acc => do
    match ← runExpert g o ops layer logits xin ids index expert acc with
    | .error st => pure (.error st)
    | .ok acc => runExperts logits xin ids rest acc

/-- The gate of the shared expert, where the model has one in the right shape. -/
def sharedGate : Exec V S (Option (List UInt8)) := do
  let name := blk layer "ffn_gate_inp_shexp.weight"
  match ← acquireOptional g o .sharedGateInp layer 0 name with
  | some t => pure (if t.ggmlType = 0 ∧ t.nDims = 1 ∧ dim t 0 = g.cfg.nEmbd then some name
      else none)
  | none => pure none

/-- The shared expert on top of the sum; whether it was added. -/
def runShared (xin acc : V) : Exec V S (V × Bool) := do
  let D := g.cfg.nEmbd
  let FF := g.cfg.nFf
  let gate ← sharedGate g o layer
  let ng := blk layer "ffn_gate_shexp.weight"
  let nu := blk layer "ffn_up_shexp.weight"
  let nd := blk layer "ffn_down_shexp.weight"
  match ← acquireWeight g o .sharedGate layer 0 ng with
  | .error _ => pure (acc, false)
  | .ok tg =>
  match ← acquireWeight g o .sharedUp layer 0 nu with
  | .error _ => pure (acc, false)
  | .ok tu => do
  let a ← mmDispatch g o ops .sharedGate layer 0 (weight ng tg FF D) xin
  if a.1 ≠ .ok then pure (acc, false) else do
  let b ← mmDispatch g o ops .sharedUp layer 0 (weight nu tu FF D) xin
  if b.1 ≠ .ok then pure (acc, false) else do
  match ← acquireWeight g o .sharedDown layer 0 nd with
  | .error _ => pure (acc, false)
  | .ok td => do
  let h := ops.swiglu a.2 b.2
  let y ← mmDispatch g o ops .sharedDown layer 0 (weight nd td D FF) h
  if y.1 ≠ .ok then pure (acc, false)
  else pure (ops.addShared gate xin acc y.2, true)

/-- The shared expert, in the models that have one. -/
def addShared (xin acc : V) : Exec V S (V × Bool) := do
  if g.cfg.hasSharedExpert then runShared g o ops layer xin acc
  else pure (acc, false)

/-- The norm of an MoE block, on top of its input. -/
def finishMoe (acc : V) (shared : Bool) : Exec V S Status := do
  let y ← postNorm g o ops layer .moePostNorm (blk layer "ffn_post_norm.weight") acc
  Logged.modify fun w => { w with hidden := ops.add y w.res }
  Logged.log (.ffn layer (.moe shared))
  pure .ok

def moeFfnLayer : Exec V S Status := do
  let w ← Logged.get
  Logged.modify fun w => { w with res := w.hidden }
  let xin ← normalise g o ops layer .moeNorm (blk layer "ffn_norm.weight") w.hidden
  let name := blk layer "ffn_gate_inp.weight"
  match ← acquireWeight g o .router layer 0 name with
  | .error st => pure st
  | .ok t => do
  let logits ← mmDispatch g o ops .router layer 0 (weight name t g.cfg.nExpert g.cfg.nEmbd) xin
  if logits.1 ≠ .ok then pure logits.1
  else if 16 < g.cfg.nExpertUsed then refuse .unsupported
  else if ← allocate o .routeOrder layer 0 then do
    let ids := moeRoute (ops.greater logits.2) g.cfg.nExpert g.cfg.nExpertUsed
    Logged.modify fun w => { w with hidden := ops.zero }
    match ← runExperts g o ops layer logits.2 xin ids ids.zipIdx ops.zero with
    | .error st => pure st
    | .ok acc => do
      let acc ← addShared g o ops layer xin acc
      finishMoe g o ops layer acc.1 acc.2
  else pure .nomem

end Experts

section Ffn

variable {K : Type*} {V S : Type} (g : Graph K) (o : Outcomes) (ops : Ops V S) (layer : Nat)

/-- Whether a call of a device path succeeds; its failure only leads to another path. -/
def works (place : Place) (use : Use) : Bool := o ⟨place, use, layer, 0⟩ = .ok

/-- `n_head * head_dim`. -/
def attentionDim : Nat := wrap32 (g.cfg.nHead * g.cfg.headDim)

/-- A Q8_0 tensor whose lease can be had. -/
def readyTensor (place : Place) (name : List UInt8) : Option GgufTensor :=
  if works o layer place .acquire then find g.file name else none

/-- The products of a gated block as the fused kernels make them. -/
def gatedBlock (gate up down : Matmul) (x : V) : V :=
  ops.matmul down (ops.swiglu (ops.matmul gate x) (ops.matmul up x))

/-- The fused head of a routed block: the projection, the norm and the router in one submit. -/
def fusedHead : Exec V S (Option V) := do
  let D := g.cfg.nEmbd
  let no := blk layer "attn_output.weight"
  let nn := blk layer "ffn_norm.weight"
  let nr := blk layer "ffn_gate_inp.weight"
  let w ← Logged.get
  match readyTensor g o layer .headOutput no, readyTensor g o layer .headNorm nn,
    readyTensor g o layer .headRouter nr with
  | some tw, some _, some tr =>
    if works o layer .headLogits .buffer && attentionDim g = D && tw.ggmlType = 8 &&
        tr.ggmlType = 8 && q8Accepts D D && q8Accepts 1 D && works o layer .headOutput .device
    then do
      let h := ops.add w.res (ops.matmul (weight no tw D D) w.att)
      Logged.log (.matmul ⟨.headOutput, .device, layer, 0⟩ (weight no tw D D) .ok)
      Logged.log (.matmul ⟨.headRouter, .device, layer, 0⟩ (weight nr tr 1 D) .ok)
      Logged.modify fun w => { w with hidden := h }
      pure (some (ops.matmul (weight nr tr 1 D) (ops.rmsnorm nn h)))
    else pure none
  | _, _, _ => pure none

/-- The output projection on the host; without its weight it is zero. -/
def headProjection : Exec V S V := do
  let name := blk layer "attn_output.weight"
  match ← acquireWeight g o .headHost layer 0 name with
  | .ok t => do
    let w ← Logged.get
    let m := weight name t g.cfg.nEmbd (attentionDim g)
    let y ← dispatch o ops .headHost layer 0 g.vk m w.att
    pure y.2
  | .error _ => pure ops.zero

/-- The projection and its residual, where the fused head did not run. -/
def headFallback : Exec V S Unit := do
  if ← allocate o .headHost layer 0 then do
    let y ← headProjection g o ops layer
    Logged.modify fun w => { w with hidden := ops.add w.res y }
  else Logged.modify fun w => { w with hidden := w.res }

/-- The tensors of the fused tail. -/
structure Tail where
  output : GgufTensor
  gate : GgufTensor
  up : GgufTensor
  down : GgufTensor

/-- The leases of the fused tail, up to the first that fails. -/
def tailTensors : Option Tail := do
  let output ← readyTensor g o layer .tailOutput (blk layer "attn_output.weight")
  let _ ← readyTensor g o layer .tailNorm (blk layer "ffn_norm.weight")
  let gate ← readyTensor g o layer .tailGate (blk layer "ffn_gate.weight")
  let up ← readyTensor g o layer .tailUp (blk layer "ffn_up.weight")
  let down ← readyTensor g o layer .tailDown (blk layer "ffn_down.weight")
  pure ⟨output, gate, up, down⟩

/-- Whether the fused tail runs on the device. -/
def tailRuns (t : Tail) : Bool :=
  let D := g.cfg.nEmbd
  let FF := g.cfg.nFf
  t.output.ggmlType = 8 && t.gate.ggmlType = 8 && t.up.ggmlType = 8 && t.down.ggmlType = 8 &&
    attentionDim g = D && q8Accepts D D && q8Accepts FF D && q8Accepts D FF &&
    works o layer .tailOutput .device

/-- The output projection alone on the host. -/
def tailFallback (output : Matmul) : Exec V S Unit := do
  if ← allocate o .tailHost layer 0 then do
    let w ← Logged.get
    let y ← dispatch o ops .tailHost layer 0 g.vk output w.att
    let h := ops.add w.res y.2
    Logged.modify fun w => { w with hidden := h, res := h }
  else pure ()

/-- The fused tail: everything after the attention in one submit, or the output projection
alone on the host. Whether the layer is done. -/
def layerTail (t : Tail) : Exec V S Bool := do
  let D := g.cfg.nEmbd
  let FF := g.cfg.nFf
  let output := weight (blk layer "attn_output.weight") t.output D (attentionDim g)
  let gate := weight (blk layer "ffn_gate.weight") t.gate FF D
  let up := weight (blk layer "ffn_up.weight") t.up FF D
  let down := weight (blk layer "ffn_down.weight") t.down D FF
  let w ← Logged.get
  if tailRuns g o layer t then do
    [output, gate, up, down].forM fun m =>
      Logged.log (.matmul ⟨.tailOutput, .device, layer, 0⟩ m .ok)
    let h := ops.add w.res (ops.matmul output w.att)
    let x := ops.rmsnorm (blk layer "ffn_norm.weight") h
    Logged.modify fun w => { w with hidden := ops.add h (gatedBlock ops gate up down x) }
    Logged.log (.ffn layer .gated)
    pure true
  else do
    tailFallback g o ops layer output
    pure false

/-- The checks of `vk_matmul_slice`. -/
def vkSliceAccepts (m : Matmul) : Bool := m.tensor.ggmlType ≠ 14 && vkAccepts m

/-- The logits of the router of a routed block. -/
def routedLogits (head : Option V) (x : V) : Exec V S V := do
  match head with
  | some logits => pure logits
  | none => do
    let name := blk layer "ffn_gate_inp.weight"
    match ← acquireWeight g o .routedRouter layer 0 name with
    | .ok t => do
      let m := weight name t 1 g.cfg.nEmbd
      let y ← dispatch o ops .routedRouter layer 0 (g.vk && vkSliceAccepts m) m x
      pure y.2
    | .error _ => pure ops.zero

/-- The only expert of a routed block, on the device or on the CPU. -/
def routedExpert (tg tu td : GgufTensor) (x : V) : Exec V S V := do
  let D := g.cfg.nEmbd
  let FF := g.cfg.nFf
  let gate := weight (blk layer "ffn_gate_exps.weight") tg FF D
  let up := weight (blk layer "ffn_up_exps.weight") tu FF D
  let down := weight (blk layer "ffn_down_exps.weight") td D FF
  if g.vk && tg.ggmlType = 8 && tu.ggmlType = 8 && td.ggmlType = 8 && q8Accepts FF D &&
      q8Accepts D FF && works o layer .routedGate .device then do
    [gate, up, down].forM fun m =>
      Logged.log (.matmul ⟨.routedGate, .device, layer, 0⟩ m .ok)
    pure (gatedBlock ops gate up down x)
  else do
    let a ← cpuMatmul o ops .routedGate layer 0 gate x
    let b ← cpuMatmul o ops .routedUp layer 0 up x
    let y ← cpuMatmul o ops .routedDown layer 0 down (ops.swiglu a.2 b.2)
    pure y.2

/-- The buffers of a routed block, all of them. -/
def routedBuffers (first count : Nat) : Exec V S Bool :=
  (List.range count).foldlM (fun ready i => do
    let ok ← allocate o .routed layer (first + i)
    pure (ready && ok)) true

/-- The sum over the experts; without a tensor or a buffer it stays zero. -/
def routedSum (logits x : V) : Exec V S V := do
  match ← acquireWeight g o .routedGate layer 0 (blk layer "ffn_gate_exps.weight") with
  | .error _ => pure ops.zero
  | .ok tg =>
  match ← acquireWeight g o .routedUp layer 0 (blk layer "ffn_up_exps.weight") with
  | .error _ => pure ops.zero
  | .ok tu =>
  match ← acquireWeight g o .routedDown layer 0 (blk layer "ffn_down_exps.weight") with
  | .error _ => pure ops.zero
  | .ok td => do
    if ← routedBuffers o layer 5 4 then do
      let y ← routedExpert g o ops layer tg tu td x
      pure (ops.addExpert logits [0] 0 ops.zero y)
    else pure ops.zero

/-- The routed branch of `ffn_layer`. It is reached with at most one expert, so the router has
one row, the only choice is expert 0, and it lies at the start of its tensors. -/
def routedBlock (head : Option V) (x : V) : Exec V S Status := do
  Logged.log (.ffn layer (.moe false))
  if ← routedBuffers o layer 0 5 then do
    let logits ← routedLogits g o ops layer head x
    let acc ← routedSum g o ops layer logits x
    Logged.modify fun w => { w with hidden := ops.add w.res acc }
    pure .ok
  else pure .ok

/-- The fused block of `ffn_layer`. Whether the layer is done. -/
def fusedFfn (x : V) : Exec V S Bool := do
  let D := g.cfg.nEmbd
  let FF := g.cfg.nFf
  let ng := blk layer "ffn_gate.weight"
  let nu := blk layer "ffn_up.weight"
  let nd := blk layer "ffn_down.weight"
  match readyTensor g o layer .fusedGate ng, readyTensor g o layer .fusedUp nu,
    readyTensor g o layer .fusedDown nd with
  | some tg, some tu, some td =>
    if g.vk && tg.ggmlType = 8 && tu.ggmlType = 8 && td.ggmlType = 8 && q8Accepts FF D &&
        q8Accepts D FF && works o layer .fusedGate .buffer && works o layer .fusedGate .device
    then do
      let gate := weight ng tg FF D
      let up := weight nu tu FF D
      let down := weight nd td D FF
      [gate, up, down].forM fun m =>
        Logged.log (.matmul ⟨.fusedGate, .device, layer, 0⟩ m .ok)
      Logged.modify fun w => { w with hidden := ops.add w.res (gatedBlock ops gate up down x) }
      Logged.log (.ffn layer .gated)
      pure true
    else pure false
  | _, _, _ => pure false

/-- Gate and up of a gated block, together on the device or both on the CPU. -/
def gatePair (gate up : Matmul) (x : V) : Exec V S (V × V) := do
  let accepted := if gate.tensor.ggmlType = 8 ∧ up.tensor.ggmlType = 8 then
      q8Accepts gate.outDim gate.inDim
    else vkAccepts gate && vkAccepts up
  if g.vk && !g.lora && accepted && works o layer .ffnGate .device then do
    Logged.log (.matmul ⟨.ffnGate, .device, layer, 0⟩ gate .ok)
    Logged.log (.matmul ⟨.ffnUp, .device, layer, 0⟩ up .ok)
    pure (ops.matmul gate x, ops.matmul up x)
  else do
    let a ← cpuMatmul o ops .ffnGate layer 0 gate x
    let b ← cpuMatmul o ops .ffnUp layer 0 up x
    pure (a.2, b.2)

/-- The first half of a gated block, into `work_ffn`. -/
def gatedStage (x : V) : Exec V S Unit := do
  let D := g.cfg.nEmbd
  let FF := g.cfg.nFf
  let ng := blk layer "ffn_gate.weight"
  let nu := blk layer "ffn_up.weight"
  let gateBuf ← allocate o .ffnGate layer 0
  let upBuf ← allocate o .ffnUp layer 0
  if gateBuf && upBuf then do
    match ← acquireWeight g o .ffnGate layer 0 ng with
    | .error _ => pure ()
    | .ok tg =>
    match ← acquireWeight g o .ffnUp layer 0 nu with
    | .error _ => pure ()
    | .ok tu => do
      let ab ← gatePair g o ops layer (weight ng tg FF D) (weight nu tu FF D) x
      let a := loraApply g ops ng FF D x ab.1
      let b := loraApply g ops nu FF D x ab.2
      Logged.modify fun w => { w with ffn := ops.swiglu a b }
  else pure ()

/-- The up projection of an ungated block, into `work_ffn`. -/
def ungatedUp (x : V) : Exec V S Unit := do
  let name := blk layer "ffn_up.weight"
  match ← acquireWeight g o .ffnOnlyUp layer 0 name with
  | .error _ => pure ()
  | .ok t => do
    let y ← dispatch o ops .ffnOnlyUp layer 0 g.vk (weight name t g.cfg.nFf g.cfg.nEmbd) x
    Logged.modify fun w => { w with ffn := y.2 }

/-- The first half of an ungated block. -/
def ungatedStage (x : V) : Exec V S Unit := do
  ungatedUp g o ops layer x
  Logged.modify fun w => { w with ffn := ops.gelu w.ffn }

/-- The sub-norm of a dense block. -/
def ffnSubNorm : Exec V S Unit := do
  let w ← Logged.get
  let y ← shapedNorm g o ops layer .ffnSubNorm (blk layer "ffn_sub_norm.weight") g.cfg.nFf w.ffn
  Logged.modify fun w => { w with ffn := y }

/-- The down projection with its norm, on top of the input of the block. -/
def projectDown (t : GgufTensor) : Exec V S Unit := do
  if ← allocate o .ffnDown layer 0 then do
    let w ← Logged.get
    let name := blk layer "ffn_down.weight"
    let m := weight name t g.cfg.nEmbd g.cfg.nFf
    let y ← dispatch o ops .ffnDown layer 0 g.vk m w.ffn
    let y := loraApply g ops name m.outDim m.inDim w.ffn y.2
    let y ← postNorm g o ops layer .ffnPostNorm (blk layer "ffn_post_norm.weight") y
    Logged.modify fun w => { w with hidden := ops.add w.res y }
  else pure ()

/-- The second half of a dense block: sub-norm, down projection, norm and residual. -/
def downStage : Exec V S Unit := do
  Logged.onlyIf (g.cfg.hasSubNorm = true) (ffnSubNorm g o ops layer)
  match ← acquireWeight g o .ffnDown layer 0 (blk layer "ffn_down.weight") with
  | .error _ => pure ()
  | .ok t => projectDown g o ops layer t

/-- The dense branches of `ffn_layer`. -/
def denseBlock (x : V) : Exec V S Status := do
  if g.cfg.hasGateUp then do
    if ← fusedFfn g o ops layer x then pure .ok
    else do
      gatedStage g o ops layer x
      downStage g o ops layer
      Logged.log (.ffn layer .gated)
      pure .ok
  else do
    ungatedStage g o ops layer x
    downStage g o ops layer
    Logged.log (.ffn layer .ungated)
    pure .ok

/-- The per-op block: its norm, and the branch that the model's tensors select. -/
def perOpBlock (head : Option V) : Exec V S Status := do
  let w ← Logged.get
  let x ← normalise g o ops layer .ffnNorm (blk layer "ffn_norm.weight") w.hidden
  Logged.modify fun w => { w with hidden := x }
  if hasTensor g "blk.0.ffn_gate_inp.weight" then routedBlock g o ops layer head x
  else denseBlock g o ops layer x

/-- The fused tail where the device has one; whether the layer is done. -/
def tailStage : Exec V S Bool := do
  if g.layerTail && g.vk then
    match tailTensors g o layer with
    | some t => layerTail g o ops layer t
    | none => do
      -- only the fused head has made the projection by now
      Logged.onlyIf (moeFusedHeadOk g = false) (Logged.log (.skipped .attnOutput layer))
      pure false
  else pure false

/-- The fused head where the model has one, or what it stands for on the host. -/
def headStage : Exec V S (Option V) := do
  if moeFusedHeadOk g then do
    match ← fusedHead g o ops layer with
    | some logits => pure (some logits)
    | none => do
      headFallback g o ops layer
      pure none
  else pure none

def ffnLayer : Exec V S Status := do
  if 1 < g.cfg.nExpert then do
    -- a projection that `attention_layer` left to a fused path is not made
    Logged.onlyIf (moeFusedHeadOk g ∨
      (layerTailWillFuse g ∧ hasTensor g "blk.0.ffn_gate_inp.weight" = false))
      (Logged.log (.skipped .attnOutput layer))
    moeFfnLayer g o ops layer
  else do
    let head ← headStage g o ops layer
    Logged.modify fun w => { w with res := w.hidden }
    if ← tailStage g o ops layer then pure .ok
    else perOpBlock g o ops layer head

end Ffn

end VgEngine.Decode
