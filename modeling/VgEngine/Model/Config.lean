import VgEngine.Model.Metadata
import Mathlib.Algebra.Field.Defs
import Mathlib.Order.Defs.LinearOrder

/-! The configuration that `vg_model_graph_load` derives from a file, the allocations of the
loader succeeding. -/
namespace VgEngine.Model
open Bytes Gguf

/-- `VG_ModelConfig`, with its floats in `K`. -/
structure ModelConfig (K : Type*) where
  nVocab : Nat
  nEmbd : Nat
  nHead : Nat
  nHeadKv : Nat
  nLayer : Nat
  nFf : Nat
  headDim : Nat
  nRot : Nat
  rmsEps : K
  freqBase : K
  bosId : Int
  eosId : Int
  hasBiases : Bool
  hasGateUp : Bool
  hasSubNorm : Bool
  hasPostNorm : Bool
  hasSharedExpert : Bool
  attnLogitSoftcap : K
  logitSoftcap : K
  nCtx : Nat
  nExpert : Nat
  nExpertUsed : Nat
  slidingWindow : Nat

/-- `HKV` of `attention_layer`. -/
def ModelConfig.kvHeads {K : Type*} (cfg : ModelConfig K) : Nat :=
  if cfg.nHeadKv = 0 then 1 else cfg.nHeadKv

section Load

variable (g : VgGguf)

/-- `read_metadata_int` into a variable that holds `old`. -/
def readMetadataInt (key : List UInt8) (old : Int) : Int :=
  match ggufMeta g key with
  | none => old
  | some v => toInt32 (strtol (skipList v))

/-- A key under the prefix of the architecture. -/
def archKey (arch : List UInt8) (key : String) : List UInt8 := snprintf 128 [arch, txt key]

/-- `READ_INT`. -/
def readInt (arch : List UInt8) (key : String) : Nat :=
  toUInt32 (readMetadataInt g (archKey arch key) 0)

/-- The window under the first of its keys with a positive value, or 512. -/
def readSlidingWindow (arch : List UInt8) : Nat :=
  let sw := readMetadataInt g (archKey arch ".attention.sliding_window") 0
  let sw := if sw ≤ 0 then readMetadataInt g (txt "llama.attention.sliding_window") sw else sw
  let sw := if sw ≤ 0 then readMetadataInt g (txt "attention.sliding_window") sw else sw
  if 0 < sw then toUInt32 sw else 512

/-- A dimension of a tensor of the file, where the tensor has it. -/
def dimOf (name : String) (i : Nat) : Option Nat :=
  (find g (txt name)).bind fun t => if i < t.nDims then some (dim t i) else none

/-- The head width: from the outputs of the first query projection, else from the embedding. -/
def readHeadDim (nEmbd nHead : Nat) : Nat :=
  let derived := if nHead = 0 then 0
    else wrap32 (((dimOf g "blk.0.attn_q.weight" 1).getD 0) / nHead)
  if derived = 0 then nEmbd / (if nHead = 0 then 1 else nHead) else derived

def present (name : String) : Bool := (find g (txt name)).isSome

variable {K : Type*} [Field K] [LinearOrder K] (strtof : List UInt8 → Option K)

/-- `read_metadata_float`; `strtof` gives nothing where the value is not finite. -/
def readMetadataFloat (key : List UInt8) : Option K := (ggufMeta g key).bind (strtof ∘ skipList)

/-- A soft cap is zero unless the metadata declares a positive one. -/
def readSoftcap (key : List UInt8) : K :=
  match readMetadataFloat g strtof key with
  | none => 0
  | some cap => if 0 < cap then cap else 0

/-- The configuration under an architecture. -/
def configOf (arch : List UInt8) : ModelConfig K :=
  let orElse := fun (n : Nat) (m : Option Nat) => if n = 0 then wrap32 (m.getD 0) else n
  let nEmbd := orElse (readInt g arch ".embedding_length") (dimOf g "token_embd.weight" 0)
  let nHead := readInt g arch ".attention.head_count"
  let nHeadKv := readInt g arch ".attention.head_count_kv"
  let headDim := readHeadDim g nEmbd nHead
  let nRot := readInt g arch ".rope.dimension_count"
  let eps := (readMetadataFloat g strtof
    (archKey arch ".attention.layer_norm_rms_epsilon")).getD 0
  let base := (readMetadataFloat g strtof (archKey arch ".rope.freq_base")).getD 0
  let nExpert := readInt g arch ".expert_count"
  let nExpertUsed := readInt g arch ".expert_used_count"
  let nExpert' := if nExpert = 0 then 1 else nExpert
  let nExpertUsed' := if nExpertUsed = 0 then 1 else nExpertUsed
  let nCtx := readMetadataInt g (archKey arch ".context_length") 0
  { nVocab := orElse (readInt g arch ".vocab_size") (dimOf g "token_embd.weight" 1)
    nEmbd := nEmbd
    nHead := nHead
    nHeadKv := if nHeadKv = 0 then nHead else nHeadKv
    nLayer := readInt g arch ".block_count"
    nFf := orElse (readInt g arch ".feed_forward_length") (dimOf g "blk.0.ffn_down.weight" 0)
    headDim := headDim
    nRot := min (if nRot = 0 then headDim else nRot) headDim
    rmsEps := if eps ≤ 0 then 1 / 100000 else eps
    freqBase := if base < 1 then 100000 else base
    bosId := readMetadataInt g (txt "tokenizer.ggml.bos_token_id") 0
    eosId := readMetadataInt g (txt "tokenizer.ggml.eos_token_id") 0
    hasBiases := present g "blk.0.attn_q.bias"
    hasGateUp := present g "blk.0.ffn_gate.weight"
    hasSubNorm := present g "blk.0.attn_sub_norm.weight"
    hasPostNorm :=
      present g "blk.0.attn_post_norm.weight" && present g "blk.0.ffn_post_norm.weight"
    hasSharedExpert :=
      present g "blk.0.ffn_gate_shexp.weight" && present g "blk.0.ffn_down_shexp.weight"
    attnLogitSoftcap := readSoftcap g strtof (archKey arch ".attention.logit_softcap")
    logitSoftcap := readSoftcap g strtof (archKey arch ".final_logit_softcap")
    nCtx := if 0 < nCtx then toUInt32 nCtx else 2048
    nExpert := nExpert'
    nExpertUsed := min nExpertUsed' nExpert'
    slidingWindow := readSlidingWindow g arch }

/-- `vg_model_graph_load`; nothing where the architecture is missing. -/
def loadConfig : Option (ModelConfig K) :=
  (ggufMeta g (txt "general.architecture")).map (configOf g strtof)

end Load

end VgEngine.Model
