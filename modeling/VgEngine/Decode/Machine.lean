import VgEngine.Lib.Logged
import VgEngine.Model.Heads

/-! What the layers of the evaluator are made of: weights that are acquired, buffers that are
allocated, products that go to the device or to the CPU kernels. The numbers themselves are
left open: a layer is run over any interpretation of its operations. -/
namespace VgEngine.Decode
open Lib Bytes Gguf Model

/-- `VG_ModelGraph`, without its buffers, and the environment: whether the fused layer tail and
the fused dense layers are allowed, and the positions of the device cache. -/
structure Graph (K : Type*) where
  file : VgGguf
  cfg : ModelConfig K
  source : Bool
  vk : Bool
  lora : Bool
  layerTail : Bool
  gpuAttn : Bool
  gpuCtx : Nat

/-- A graph without a device and without an adapter. -/
def cpuGraph {K : Type*} (g : VgGguf) (cfg : ModelConfig K) : Graph K :=
  { file := g, cfg := cfg, source := true, vk := false, lora := false, layerTail := true,
    gpuAttn := true, gpuCtx := 0 }

theorem cpuGraph_file {K : Type*} (g : VgGguf) (cfg : ModelConfig K) :
    (cpuGraph g cfg).file = g := rfl

/-- The places of the source whose calls can fail. -/
inductive Place where
  | embedding
  | attnNorm | attnQ | attnK | attnV | qkvWork | qBias | kBias | vBias | qNorm | kNorm
  | batchQ | batchK | batchV | page | attnWork | scores
  | attnSubNorm | attnOutput | attnPostNorm
  | moeNorm | router | routeOrder | expertGate | expertUp | expertDown
  | sharedGateInp | sharedGate | sharedUp | sharedDown | moePostNorm
  | headLogits | headOutput | headNorm | headRouter | headHost
  | tailOutput | tailNorm | tailGate | tailUp | tailDown | tailHost
  | ffnNorm | routed | routedRouter | routedGate | routedUp | routedDown
  | fusedGate | fusedUp | fusedDown
  | ffnGate | ffnUp | ffnOnlyUp | ffnSubNorm | ffnDown | ffnPostNorm
  | outputNorm | outputHead | dense | denseHead
deriving DecidableEq

/-- What a call is for: a weight, a buffer, the device, or the row buffer of a CPU kernel. -/
inductive Use where
  | acquire | buffer | device | rows
deriving DecidableEq

/-- A call of one decode. The index tells apart the calls of a loop. -/
structure Call where
  place : Place
  use : Use
  layer : Nat
  index : Nat
deriving DecidableEq

/-- How the calls of a decode turn out. -/
abbrev Outcomes := Call → Status

/-- A product with `outDim` rows of `inDim` elements. The rows are read from a buffer of `size`
bytes that holds the tensor from an offset on. -/
structure Matmul where
  name : List UInt8
  tensor : GgufTensor
  offset : Nat
  size : Nat
  outDim : Nat
  inDim : Nat
deriving DecidableEq, Repr

/-- The forms of a feed-forward block. -/
inductive FfnKind where
  | gated
  | ungated
  | moe (shared : Bool)
deriving DecidableEq, Repr

/-- A decode logs the calls it depends on, the products it issues or leaves out, the block it
takes, and a refusal that no call explains. -/
inductive Event where
  | call (c : Call) (failed : Bool)
  | skipped (place : Place) (layer : Nat)
  | refused (status : Status)
  | matmul (c : Call) (m : Matmul) (status : Status)
  | ffn (layer : Nat) (kind : FfnKind)
deriving DecidableEq

/-- An interpretation: vectors, and the key and value pages of all layers. -/
structure Ops (V S : Type) where
  /-- a buffer that nothing has been written to -/
  junk : V
  zero : V
  add : V → V → V
  rmsnorm : List UInt8 → V → V
  matmul : Matmul → V → V
  /-- `y + s * B * (A * x)` for the weight of a name -/
  lora : List UInt8 → Nat → Nat → V → V → V
  bias : List UInt8 → V → V
  headNorm : List UInt8 → Nat → V → V
  /-- position, rotated elements, width and index of the head -/
  rope : Nat → Nat → Nat → Nat → V → V
  swiglu : V → V → V
  gelu : V → V
  /-- whether the first of two logits is the greater -/
  greater : V → Nat → Nat → Bool
  /-- the output of the selected expert of an index, weighted by the logits, on top of a sum -/
  addExpert : V → List Nat → Nat → V → V → V
  /-- the output of the shared expert under its gate, on top of a sum -/
  addShared : Option (List UInt8) → V → V → V → V
  evict : Nat → Nat → S → S
  pageMissing : Nat → Nat → S → Bool
  addPage : Nat → Nat → Nat → Bool → Bool → S → S
  writeRow : Nat → Nat → Nat → Option V → Option V → S → S
  attend : Nat → Nat → Nat → (Nat → Bool) → V → S → V
  embed : Nat → V
  /-- the rows of the output head that could be read -/
  logits : (Nat → Bool) → V → V
  softcap : V → V
  /-- all the layers in one submit, at a position -/
  dense : Nat → V → S → V × S
  /-- the output norm and the output head of that submit -/
  denseLogits : V → V

/-- The buffers of the graph that outlive a call. -/
structure Work (V S : Type) where
  hidden : V
  res : V
  qkv : V
  att : V
  ffn : V
  kv : S
  qkvCap : Nat
  attCap : Nat
  logits : V
  /-- `gpu_dense`, once it has been looked at -/
  gpuDense : Option Bool

/-- The interpretation that computes nothing. -/
def unitOps : Ops Unit Unit where
  junk := ()
  zero := ()
  add _ _ := ()
  rmsnorm _ _ := ()
  matmul _ _ := ()
  lora _ _ _ _ _ := ()
  bias _ _ := ()
  headNorm _ _ _ := ()
  rope _ _ _ _ _ := ()
  swiglu _ _ := ()
  gelu _ := ()
  greater _ _ _ := false
  addExpert _ _ _ _ _ := ()
  addShared _ _ _ _ := ()
  evict _ _ _ := ()
  pageMissing _ _ _ := false
  addPage _ _ _ _ _ _ := ()
  writeRow _ _ _ _ _ _ := ()
  attend _ _ _ _ _ _ := ()
  embed _ := ()
  logits _ _ := ()
  softcap _ := ()
  dense _ _ _ := ((), ())
  denseLogits _ := ()

def unitWork : Work Unit Unit := ⟨(), (), (), (), (), (), 0, 0, (), none⟩

section Calls

variable {K : Type*} {V S : Type} (g : Graph K) (o : Outcomes) (ops : Ops V S)

abbrev Exec (V S : Type) := Logged (Work V S) Event

/-- `acquire_weight` of a weight that the layer cannot do without. -/
def acquireWeight (place : Place) (layer index : Nat) (name : List UInt8) :
    Exec V S (Except Status GgufTensor) := do
  let c : Call := ⟨place, .acquire, layer, index⟩
  match find g.file name with
  | none => do
    Logged.log (.call c true)
    pure (.error .invalid)
  | some t => do
    Logged.log (.call c (o c ≠ .ok))
    pure (if o c = .ok then .ok t else .error (o c))

/-- `acquire_weight` of a weight that a model may lack. -/
def acquireOptional (place : Place) (layer index : Nat) (name : List UInt8) :
    Exec V S (Option GgufTensor) := do
  let c : Call := ⟨place, .acquire, layer, index⟩
  match find g.file name with
  | none => pure none
  | some t => do
    Logged.log (.call c (o c ≠ .ok))
    pure (if o c = .ok then some t else none)

/-- A return with an error that no call has reported. -/
def refuse (st : Status) : Exec V S Status := do
  Logged.log (.refused st)
  pure st

/-- An allocation. -/
def allocate (place : Place) (layer index : Nat) : Exec V S Bool := do
  let c : Call := ⟨place, .buffer, layer, index⟩
  Logged.log (.call c (o c ≠ .ok))
  pure (o c = .ok)

/-- The checks of `matmul_impl`. -/
def cpuStatus (m : Matmul) : Status :=
  if m.outDim = 0 ∨ m.inDim = 0 then .invalid
  else match quantInfo m.tensor.ggmlType with
    | none => .unsupported
    | some q =>
      if m.inDim % q.blockSize ≠ 0 then .format
      else if supportedScalar m.tensor.ggmlType = false then .unsupported
      else .ok

/-- `pick_rows`: the types with a kernel of their own; the others take a row buffer. -/
def hasRowKernel (type : Nat) : Bool := [0, 1, 8, 2, 12, 14, 34, 35, 41, 42].contains type

/-- `vg_cpu_matmul`: the status, and the product where the rows were computed. -/
def cpuMatmul (place : Place) (layer index : Nat) (m : Matmul) (x : V) :
    Exec V S (Status × V) := do
  Logged.log (.matmul ⟨place, .rows, layer, index⟩ m (cpuStatus m))
  if cpuStatus m ≠ .ok then pure (cpuStatus m, ops.junk)
  else if hasRowKernel m.tensor.ggmlType then pure (.ok, ops.matmul m x)
  else do
    let c : Call := ⟨place, .rows, layer, index⟩
    Logged.log (.call c (o c ≠ .ok))
    pure (.ok, if o c = .ok then ops.matmul m x else ops.junk)

/-- The checks of `vk_matmul`. -/
def vkAccepts (m : Matmul) : Bool :=
  m.outDim ≠ 0 && m.inDim ≠ 0 &&
    match m.tensor.ggmlType with
    | 8 => m.inDim % 32 = 0 && wrap32 (m.outDim * (m.inDim / 32)) ≠ 0
    | 0 | 1 => true
    | 12 | 14 => m.inDim % 256 = 0
    | _ => false

/-- The checks of `vk_q8_prepare`. -/
def q8Accepts (outDim inDim : Nat) : Bool :=
  inDim % 32 = 0 && wrap32 (outDim * (inDim / 32)) ≠ 0

/-- A product on the device where `gpu` allows it, else on the CPU. -/
def dispatch (place : Place) (layer index : Nat) (gpu : Bool) (m : Matmul) (x : V) :
    Exec V S (Status × V) := do
  if gpu && vkAccepts m && o ⟨place, .device, layer, index⟩ = .ok then do
    Logged.log (.matmul ⟨place, .device, layer, index⟩ m .ok)
    pure (.ok, ops.matmul m x)
  else cpuMatmul o ops place layer index m x

/-- `mm_dispatch`. -/
def mmDispatch (place : Place) (layer index : Nat) (m : Matmul) (x : V) :
    Exec V S (Status × V) :=
  dispatch o ops place layer index (g.vk && !g.lora) m x

/-- `lora_apply`. -/
def loraApply (name : List UInt8) (outDim inDim : Nat) (x y : V) : V :=
  if g.lora then ops.lora name outDim inDim x y else y

/-- A `realloc` of a work buffer that has become too small. -/
def grow (place : Place) (layer index need cap : Nat) : Exec V S Nat := do
  if need > cap then do
    let ok ← allocate o place layer index
    pure (if ok then need else cap)
  else pure cap

def hasTensor (name : String) : Bool := (find g.file (txt name)).isSome

end Calls

end VgEngine.Decode
