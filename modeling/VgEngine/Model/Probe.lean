import VgEngine.Model.Metadata

/-! `vg_model_probe`: what a file must hold for the evaluator to run it. -/
namespace VgEngine.Model
open Bytes Gguf

/-- The sizes and features of a model. -/
structure Geometry where
  nVocab : Nat
  nLayer : Nat
  nEmbd : Nat
  nHead : Nat
  nHeadKv : Nat
  headDim : Nat
  nFf : Nat
  nRot : Nat
  nExpert : Nat
  nExpertUsed : Nat
  nCtx : Nat
  hasTokenizer : Bool
  hasBias : Bool
  hasQkNorm : Bool
  hasSubNorm : Bool
  hasPostNorm : Bool
  hasSharedExpert : Bool
  isMoe : Bool
deriving DecidableEq, Repr

def Geometry.zero : Geometry :=
  ⟨0, 0, 0, 0, 0, 0, 0, 0, 0, 0, 0, false, false, false, false, false, false, false⟩

/-- The result of a probe. The soft cap of the logits is an integer here, before the
conversion to a float. -/
structure ModelProbe extends Geometry where
  ok : Bool
  status : Status
  arch : List UInt8
  detail : List UInt8
  detailTensor : List UInt8
  logitSoftcap : Int
  quantKinds : List (List UInt8)
  requiredOps : List UInt8
deriving DecidableEq, Repr

def ModelProbe.blank : ModelProbe := ⟨.zero, true, .ok, [], [], [], 0, [], []⟩

/-- A check either goes on with the probe or ends it. -/
abbrev Check := Except ModelProbe

def archs : List String :=
  ["llama", "mistral", "qwen2", "qwen2moe", "qwen3", "qwen3moe", "gemma", "gemma2", "gemma3",
   "smollm", "tinyllama", "bitnet", "deepseek_moe", "mixtral"]

def archSupported (arch : List UInt8) : Bool := archs.any fun a => txt a == arch

/-- `meta_int`. -/
def metaInt (g : VgGguf) (key : List UInt8) : Option Int := do
  let v ← ggufMeta g key
  if strtolConverts (skipList v) then some (toInt32 (strtol (skipList v))) else none

/-- A count of the metadata: zero where it is missing or negative. -/
def metaCount (g : VgGguf) (arch : List UInt8) (key : String) : Nat :=
  ((metaInt g (snprintf 160 [arch, txt key])).getD 0).toNat

def addQuant (p : ModelProbe) (type : Nat) : ModelProbe :=
  let name := quantName "UNKNOWN" type
  if p.quantKinds.contains name ∨ 12 ≤ p.quantKinds.length then p
  else { p with quantKinds := p.quantKinds ++ [name] }

/-- `fail` keeps the first cause. -/
def fail (p : ModelProbe) (status : Status) (tensor : Option (List UInt8))
    (detail : List (List UInt8)) : ModelProbe :=
  if p.status ≠ .ok then p
  else { p with
    ok := false
    status := status
    detailTensor := (tensor.map (·.take 95)).getD p.detailTensor
    detail := snprintf 256 detail }

/-- `fail`, and the return that follows it. -/
def refuse {α : Type} (p : ModelProbe) (status : Status) (tensor : Option (List UInt8))
    (detail : List (List UInt8)) : Check α :=
  .error (fail p status tensor detail)

def missing {α : Type} (p : ModelProbe) (name : List UInt8) : Check α :=
  refuse p .unsupported (some name) [txt "required tensor '", name, txt "' is missing"]

def requireVector (g : VgGguf) (p : ModelProbe) (name : List UInt8) (width : Nat) :
    Check ModelProbe :=
  match find g name with
  | none => missing p name
  | some t =>
    if supportedScalar t.ggmlType = false then
      refuse p .unsupported (some name) [txt "tensor '", name, txt "' uses ",
        quantName "an unknown type" t.ggmlType, txt ", which has no CPU dequantizer"]
    else if t.nDims ≠ 1 ∨ (width ≠ 0 ∧ dim t 0 ≠ width) then
      refuse p .format (some name) [txt "tensor '", name, txt "' has shape ",
        decimal (dim t 0), txt ", expected ", decimal width]
    else .ok p

/-- The shape contract of a matrix; a width of zero is not checked. -/
def checkDims (p : ModelProbe) (name : List UInt8) (t : GgufTensor) (q : QuantInfo)
    (dim0 dim1 : Nat) : Check ModelProbe :=
  if t.nDims < 2 then
    refuse p .format (some name) [txt "tensor '", name, txt "' is not a matrix (",
      decimal t.nDims, txt " dims)"]
  else if dim0 ≠ 0 ∧ dim t 0 ≠ dim0 then
    refuse p .format (some name) [txt "tensor '", name, txt "' has ", decimal (dim t 0),
      txt " input rows, expected ", decimal dim0]
  else if dim1 ≠ 0 ∧ dim t 1 ≠ dim1 then
    refuse p .format (some name) [txt "tensor '", name, txt "' has ", decimal (dim t 1),
      txt " outputs, expected ", decimal dim1]
  else if dim t 0 % q.blockSize ≠ 0 then
    refuse p .format (some name) [txt "tensor '", name, txt "' row length ", decimal (dim t 0),
      txt " is not a multiple of ", decimal q.blockSize, txt " (",
      quantName "" t.ggmlType, txt " block)"]
  else .ok p

def requireTensor (g : VgGguf) (p : ModelProbe) (name : List UInt8) (dim0 dim1 : Nat)
    (dims : Bool) : Check ModelProbe :=
  match find g name with
  | none => missing p name
  | some t =>
    match quantInfo t.ggmlType with
    | none => refuse p .unsupported (some name) [txt "tensor '", name,
        txt "' uses unknown ggml type ", decimal t.ggmlType]
    | some q =>
      let p := addQuant p t.ggmlType
      if supportedScalar t.ggmlType = false then
        refuse p .unsupported (some name) [txt "tensor '", name, txt "' uses ",
          quantName "" t.ggmlType, txt ", which has no CPU dequantizer"]
      else if dims then checkDims p name t q dim0 dim1
      else .ok p

section Probe

variable (g : VgGguf)

/-- The numbers of the metadata. -/
def readMetadata (arch : List UInt8) (p : ModelProbe) : ModelProbe :=
  let first := toUInt32 (((metaInt g (txt "llama.context_length")).or
    (metaInt g (txt "qwen2.context_length"))).getD 0)
  let nCtx := if first ≠ 0 then first else metaCount g arch ".context_length"
  { p with
    nCtx := if nCtx ≠ 0 then nCtx else 2048
    nLayer := metaCount g arch ".block_count"
    nEmbd := metaCount g arch ".embedding_length"
    nHead := metaCount g arch ".attention.head_count"
    nHeadKv := metaCount g arch ".attention.head_count_kv"
    nFf := metaCount g arch ".feed_forward_length"
    nRot := metaCount g arch ".rope.dimension_count"
    nExpert := metaCount g arch ".expert_count"
    nExpertUsed := metaCount g arch ".expert_used_count"
    nVocab := metaCount g arch ".vocab_size"
    headDim := metaCount g arch ".attention.key_length" }

/-- What the metadata omits, from the embedding table. -/
def deriveVocab (te : GgufTensor) (p : ModelProbe) : ModelProbe :=
  { p with
    nVocab := if p.nVocab = 0 ∧ 2 ≤ te.nDims then wrap32 (dim te 1) else p.nVocab
    nEmbd := if p.nEmbd = 0 ∧ 1 ≤ te.nDims then wrap32 (dim te 0) else p.nEmbd }

/-- What the metadata omits, from the rest of it. -/
def deriveHeads (p : ModelProbe) : ModelProbe :=
  let headDim := if p.headDim = 0 then p.nEmbd / p.nHead else p.headDim
  { p with
    nHeadKv := if p.nHeadKv = 0 then p.nHead else p.nHeadKv
    headDim := headDim
    nRot := if p.nRot = 0 then headDim else min p.nRot headDim }

def has (name : String) : Bool := (find g (txt name)).isSome

def readFeatures (p : ModelProbe) : ModelProbe :=
  let isMoe := 1 < p.nExpert && has g "blk.0.ffn_gate_inp.weight"
  { p with
    hasTokenizer := (ggufMeta g (txt "tokenizer.ggml.model")).isSome
    hasBias := has g "blk.0.attn_q.bias"
    hasQkNorm := has g "blk.0.attn_q_norm.weight"
    hasSubNorm := has g "blk.0.attn_sub_norm.weight"
    hasPostNorm := has g "blk.0.attn_post_norm.weight" && has g "blk.0.ffn_post_norm.weight"
    hasSharedExpert :=
      has g "blk.0.ffn_gate_shexp.weight" && has g "blk.0.ffn_down_shexp.weight"
    isMoe := isMoe
    nExpertUsed := if isMoe ∧ p.nExpertUsed = 0 then 1 else p.nExpertUsed }

/-- Layouts that the evaluator cannot split or normalise. -/
def unhandled : List (String × String) :=
  [("blk.0.attn_qkv.weight", "fused QKV projection (attn_qkv.weight)"),
   ("blk.0.attn_q_a.weight", "MLA compressed Q projection (attn_q_a.weight)"),
   ("blk.0.kv_a_proj_with_mqa.weight", "MLA KV projection (kv_a_proj_with_mqa.weight)"),
   ("blk.0.ffn_gate_up.weight", "fused gate/up projection (ffn_gate_up.weight)"),
   ("position_embd.weight", "learned positional embeddings (position_embd.weight)"),
   ("blk.0.attn_conv_q.weight", "convolutional attention (attn_conv_q.weight)")]

def checkLayout (p : ModelProbe) : Check ModelProbe :=
  match unhandled.find? fun u => has g u.1 with
  | some (tensor, why) => refuse p .unsupported (some (txt tensor))
      [txt why, txt " is not implemented by this evaluator"]
  | none =>
    if (find g (txt "blk.0.ffn_up.weight")).any (fun fu => p.nFf ≠ 0 ∧ 2 ≤ fu.nDims ∧
        dim fu 1 = 2 * p.nFf) ∧ has g "blk.0.ffn_gate.weight" = false then
      refuse p .unsupported (some (txt "blk.0.ffn_up.weight"))
        [txt "ffn_up.weight packs gate and up together (2*n_ff outputs); the fused ",
         txt "SwiGLU split is not implemented"]
    else if p.hasSharedExpert ∧ p.isMoe = false then
      refuse p .format (some (txt "blk.0.ffn_gate_shexp.weight"))
        [txt "shared-expert tensors are present but the model declares no expert count"]
    else .ok p

def checkArch (arch : List UInt8) (p : ModelProbe) : Check ModelProbe :=
  let cap := (metaInt g (snprintf 96 [arch, txt ".final_logit_softcap"])).getD 0
  let p := { p with logitSoftcap := if 0 < cap then cap else 0 }
  if archSupported arch then .ok p
  else refuse p .unsupported none [txt "architecture '", arch,
    txt "' is not implemented (supported: ", txt (", ".intercalate archs), txt ")"]

def checkHead (te : GgufTensor) (p : ModelProbe) : Check ModelProbe := do
  let p ← requireTensor g p (txt "output_norm.weight") p.nEmbd 0 false
  let lm := (find g (txt "output.weight")).getD te
  let p := addQuant p lm.ggmlType
  let name := lm.name.getD []
  if supportedScalar lm.ggmlType = false then
    refuse p .unsupported (some name) [txt "output head '", name, txt "' uses ",
      quantName "an unknown type" lm.ggmlType, txt ", which has no CPU dequantizer"]
  else if lm.nDims < 2 ∨ dim lm 0 ≠ p.nEmbd then
    refuse p .format (some name) [txt "output head '", name, txt "' expects ", decimal p.nEmbd,
      txt " input rows"]
  else .ok p

def ModelProbe.qdim (p : ModelProbe) : Nat := wrap32 (p.nHead * p.headDim)

def ModelProbe.kdim (p : ModelProbe) : Nat := wrap32 (p.nHeadKv * p.headDim)

def checkAttention (l : Nat) (p : ModelProbe) : Check ModelProbe := do
  let p ← requireTensor g p (blk l "attn_norm.weight") p.nEmbd 0 false
  let p ← requireTensor g p (blk l "attn_q.weight") p.nEmbd p.qdim true
  let p ← requireTensor g p (blk l "attn_k.weight") p.nEmbd p.kdim true
  let p ← requireTensor g p (blk l "attn_v.weight") p.nEmbd p.kdim true
  let p ← requireTensor g p (blk l "attn_output.weight") p.qdim p.nEmbd true
  requireTensor g p (blk l "ffn_norm.weight") p.nEmbd 0 false

def checkSubNorms (l : Nat) (p : ModelProbe) : Check ModelProbe := do
  if p.hasSubNorm then
    let p ← requireVector g p (blk l "attn_sub_norm.weight") p.qdim
    requireVector g p (blk l "ffn_sub_norm.weight") p.nFf
  else .ok p

def checkExperts (l : Nat) (p : ModelProbe) : Check ModelProbe := do
  let p ← requireTensor g p (blk l "ffn_gate_inp.weight") p.nEmbd p.nExpert true
  let p ← requireTensor g p (blk l "ffn_gate_exps.weight") p.nEmbd 0 true
  let p ← requireTensor g p (blk l "ffn_up_exps.weight") p.nEmbd 0 true
  let p ← requireTensor g p (blk l "ffn_down_exps.weight") p.nFf p.nEmbd true
  match find g (txt "blk.0.ffn_gate_exps.weight") with
  | none => .ok p
  | some ge =>
    let name := ge.name.getD []
    if 3 ≤ ge.nDims ∧ dim ge 2 ≠ p.nExpert then
      refuse p .format (some name) [txt "tensor '", name, txt "' stacks ", decimal (dim ge 2),
        txt " experts but metadata declares ", decimal p.nExpert]
    else .ok p

def checkGate (l : Nat) (p : ModelProbe) : Check ModelProbe :=
  if has g "blk.0.ffn_gate.weight" then
    requireTensor g p (blk l "ffn_gate.weight") p.nEmbd p.nFf true
  else .ok p

def checkDense (l : Nat) (p : ModelProbe) : Check ModelProbe := do
  let p ← checkGate g l p
  let p ← requireTensor g p (blk l "ffn_up.weight") p.nEmbd p.nFf true
  requireTensor g p (blk l "ffn_down.weight") p.nFf p.nEmbd true

/-- The contract of one layer. -/
def checkLayer (p : ModelProbe) (l : Nat) : Check ModelProbe := do
  let p ← checkAttention g l p
  let p ← checkSubNorms g l p
  if p.isMoe then checkExperts g l p else checkDense g l p

def checkLayers (p : ModelProbe) : Check ModelProbe :=
  (List.range p.nLayer).foldlM (checkLayer g) p

def listOps (p : ModelProbe) : ModelProbe :=
  let op := fun (b : Bool) (s : String) => if b then txt s else []
  { p with requiredOps := snprintf 320 [txt "matmul[", decimal p.quantKinds.length,
      txt " types], rmsnorm, rope(n_rot=", decimal p.nRot, txt "), softmax",
      op p.hasQkNorm ", qk_norm", op p.hasBias ", bias_add", op p.hasSubNorm ", sub_norm",
      op p.hasPostNorm ", post_norm", op (0 < p.logitSoftcap) ", logit_softcap",
      op p.hasSharedExpert ", shared_expert",
      txt (if p.isMoe then ", moe_route, expert_matmul, expert_cache" else ", swiglu")] }

/-- The numbers, once the architecture and the embedding table are known. -/
def probeGeometry (arch : List UInt8) (te : GgufTensor) (p : ModelProbe) : Check ModelProbe :=
  let p := deriveVocab te (readMetadata g arch p)
  if p.nHead = 0 then
    refuse p .format none [txt "metadata '", arch, txt ".attention.head_count' is missing"]
  else
    let p := addQuant (deriveHeads p) te.ggmlType
    if supportedScalar te.ggmlType = false then
      refuse p .unsupported (some (txt "token_embd.weight")) [txt "token_embd.weight uses ",
        quantName "an unknown type" te.ggmlType, txt ", which has no CPU dequantizer"]
    else
      let p := readFeatures g p
      if p.nLayer = 0 ∨ p.nEmbd = 0 ∨ p.headDim = 0 then
        refuse p .format none [txt "model geometry is incomplete (n_layer=", decimal p.nLayer,
          txt " n_embd=", decimal p.nEmbd, txt " head_dim=", decimal p.headDim, txt ")"]
      else .ok p

/-- The checks of a file, up to the first that fails. -/
def probeChecks : Check ModelProbe :=
  let arch := ggufMeta g (txt "general.architecture")
  let p := { ModelProbe.blank with arch := snprintf 48 [arch.getD (txt "(none)")] }
  match arch with
  | none => refuse p .format none [txt "missing general.architecture metadata"]
  | some arch =>
    match find g (txt "token_embd.weight") with
    | none => missing (readMetadata g arch p) (txt "token_embd.weight")
    | some te => do
      let p ← probeGeometry g arch te p
      let p ← checkLayout g p
      let p ← checkArch g arch p
      let p ← checkHead g te p
      let p ← checkLayers g p
      pure (listOps p)

/-- `vg_model_probe`. -/
def modelProbe : ModelProbe :=
  match probeChecks g with
  | .ok p => p
  | .error p => p

end Probe

end VgEngine.Model
