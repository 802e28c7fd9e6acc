import VgEngine.Lib.RingIndex
import VgEngine.Vulkan.Cache
import Mathlib.Logic.Function.Basic

/-! The whole-token dense forward: device-local scratch by slots, and one command buffer for all
layers, with descriptor sets out of the rings of the pipelines. -/
namespace VgEngine.Vulkan

/-- `VG_VK_DESC_RING`. -/
def descRing : Nat := 1024

/-- The pipelines of the dense path. -/
inductive Pipeline where
  | matvecQ8_0 | rmsnorm | actQuant | ropeAdj | swiglu | residAdd | attnScores
deriving DecidableEq

/-- `ring_next` of every pipeline; a descriptor set is named by its place in the ring. -/
abbrev Rings := Pipeline → RingIndex descRing

def Rings.take (rings : Rings) (p : Pipeline) (n : Nat) : (Fin n → Nat) × Rings :=
  (((rings p).take n).1, Function.update rings p ((rings p).take n).2)

/-- `VG_VKDenseLayer`. A layer without caches or a hidden state is refused; here it has them. -/
structure DenseLayer where
  attnNormW : Nat
  qW : Nat
  qS : Nat
  kW : Nat
  kS : Nat
  vW : Nat
  vS : Nat
  ropeFreqs : Option Nat
  kCache : Nat
  vCache : Nat
  oW : Nat
  oS : Nat
  ffnNormW : Nat
  gateW : Nat
  gateS : Nat
  upW : Nat
  upS : Nat
  downW : Nat
  downS : Nat
  hiddenDev : Nat
  hiddenIn : Bool
  hiddenOut : Bool
  first : Bool
  last : Bool
  D : UInt32
  H : UInt32
  HKV : UInt32
  HD : UInt32
  KVdim : UInt32
  FF : UInt32
  Qdim : UInt32

/-- `VG_VKFinalHead`, with its weights and a place for the logits. -/
structure FinalHead where
  normW : Nat
  lmW : Nat
  lmS : Nat
  vocab : UInt32
  D : UInt32

/-- The slots of the K cache and the V cache of a layer. -/
def kSlot (layer : UInt32) : UInt32 := 1000 + layer * 2

def vSlot (layer : UInt32) : UInt32 := kSlot layer + 1

def hiddenSlot : UInt32 := 2000

/-- The slots of the activations, shared by all layers. -/
def actSlot (i : Nat) : UInt32 := 600 + i.toUInt32

def logitsSlot : UInt32 := 620

/-- What is recorded into a command buffer, without its barriers and constants. -/
inductive Command where
  | bind (p : Pipeline) (set : Nat) (bufs : List Nat)
  | dispatch (p : Pipeline) (set : Nat)
  | copy (src dst : Nat)

section Recording

variable (B : Nat → Nat)

/-- One layer of the recording. -/
def recordLayer (d : DenseLayer) (rings : Rings) : List Command × Rings :=
  let (M, rings) := rings.take .matvecQ8_0 7
  let (RN, rings) := rings.take .rmsnorm 2
  let (AQ, rings) := rings.take .actQuant 4
  let (RO, rings) := rings.take .ropeAdj 2
  let (SW, rings) := rings.take .swiglu 1
  let (RA, rings) := rings.take .residAdd 2
  let (AT, rings) := rings.take .attnScores 1
  let freq := d.ropeFreqs.getD (B 0)
  ([.bind .matvecQ8_0 (M 0) [d.qW, d.qS, B 1, B 2, B 3],
    .bind .matvecQ8_0 (M 1) [d.kW, d.kS, B 1, B 2, B 4],
    .bind .matvecQ8_0 (M 2) [d.vW, d.vS, B 1, B 2, B 5],
    .bind .matvecQ8_0 (M 3) [d.oW, d.oS, B 7, B 8, B 9],
    .bind .matvecQ8_0 (M 4) [d.gateW, d.gateS, B 12, B 13, B 14],
    .bind .matvecQ8_0 (M 5) [d.upW, d.upS, B 12, B 13, B 15],
    .bind .matvecQ8_0 (M 6) [d.downW, d.downS, B 17, B 18, B 19],
    .bind .rmsnorm (RN 0) [d.hiddenDev, d.attnNormW, B 0],
    .bind .rmsnorm (RN 1) [B 10, d.ffnNormW, B 11],
    .bind .actQuant (AQ 0) [B 0, B 1, B 2],
    .bind .actQuant (AQ 1) [B 6, B 7, B 8],
    .bind .actQuant (AQ 2) [B 11, B 12, B 13],
    .bind .actQuant (AQ 3) [B 16, B 17, B 18],
    .bind .ropeAdj (RO 0) [B 3, freq],
    .bind .ropeAdj (RO 1) [B 4, freq],
    .bind .attnScores (AT 0) [B 3, d.kCache, d.vCache, B 6],
    .bind .swiglu (SW 0) [B 14, B 15, B 16],
    .bind .residAdd (RA 0) [B 9, d.hiddenDev, B 10],
    .bind .residAdd (RA 1) [B 19, B 10, d.hiddenDev],
    .dispatch .rmsnorm (RN 0),
    .dispatch .actQuant (AQ 0),
    .dispatch .matvecQ8_0 (M 0),
    .dispatch .matvecQ8_0 (M 1),
    .dispatch .matvecQ8_0 (M 2),
    .dispatch .ropeAdj (RO 0),
    .dispatch .ropeAdj (RO 1),
    .copy (B 4) d.kCache,
    .copy (B 5) d.vCache,
    .dispatch .attnScores (AT 0),
    .dispatch .actQuant (AQ 1),
    .dispatch .matvecQ8_0 (M 3),
    .dispatch .residAdd (RA 0),
    .dispatch .rmsnorm (RN 1),
    .dispatch .actQuant (AQ 2),
    .dispatch .matvecQ8_0 (M 4),
    .dispatch .matvecQ8_0 (M 5),
    .dispatch .swiglu (SW 0),
    .dispatch .actQuant (AQ 3),
    .dispatch .matvecQ8_0 (M 6),
    .dispatch .residAdd (RA 1)], rings)

/-- All layers; the last one copies the hidden state to `out`. -/
def recordLayers (out : Option Nat) : List DenseLayer → Rings → List Command × Rings
  | [], rings => ([], rings)
  | d :: L, rings =>
    let (layer, rings) := recordLayer B d rings
    let copied := if L.isEmpty then out.toList.map (Command.copy d.hiddenDev) else []
    let (rest, rings) := recordLayers out L rings
    (layer ++ copied ++ rest, rings)

/-- The final norm and the output matrix, from the hidden state to the staged logits. -/
def recordHead (head : FinalHead) (hidden logits staging : Nat) (rings : Rings) :
    List Command × Rings :=
  let (FRN, rings) := rings.take .rmsnorm 1
  let (FAQ, rings) := rings.take .actQuant 1
  let (FMV, rings) := rings.take .matvecQ8_0 1
  ([.bind .rmsnorm (FRN 0) [hidden, head.normW, B 10],
    .bind .actQuant (FAQ 0) [B 10, B 12, B 13],
    .bind .matvecQ8_0 (FMV 0) [head.lmW, head.lmS, B 12, B 13, logits],
    .dispatch .rmsnorm (FRN 0),
    .dispatch .actQuant (FAQ 0),
    .dispatch .matvecQ8_0 (FMV 0),
    .copy logits staging], rings)

/-- The recording of a token. The head comes with the buffers of its logits. -/
def record (input out : Option Nat) (d₀ last : DenseLayer) (L : List DenseLayer)
    (head : Option (FinalHead × Nat × Nat)) (rings : Rings) : List Command × Rings :=
  let copied := input.toList.map fun b => Command.copy b d₀.hiddenDev
  let (layers, rings) := recordLayers B out L rings
  match head with
  | none => (copied ++ layers, rings)
  | some (head, logits, staging) =>
    let (tail, rings) := recordHead B head last.hiddenDev logits staging rings
    (copied ++ layers ++ tail, rings)

end Recording

/-- Work on a device that may fail. -/
abbrev Work := ExceptT Status (StateM VK)

section Model

variable (driver : Driver)

def scratch (slot : UInt32) (bytes : UInt64) : Work Nat :=
  fun v => v.scratchAcquire driver slot.toNat bytes

def devbuf (slot : UInt32) (bytes : UInt64) : Work Nat :=
  fun v => v.devbufAcquire driver slot.toNat bytes

def refuse (p : Prop) [Decidable p] (status : Status) : Work Unit :=
  if p then throw status else pure ()

/-- The bytes of the activations `B[0]` to `B[19]`. -/
def actSizes (d : DenseLayer) : List UInt64 :=
  let D := d.D.toUInt64
  let Q := d.Qdim.toUInt64
  let KV := d.KVdim.toUInt64
  let FF := d.FF.toUInt64
  let nbD := (d.D / 32).toUInt64
  let nbQ := (d.Qdim / 32).toUInt64
  let nbFF := (d.FF / 32).toUInt64
  [D * 4, nbD * 4, nbD * 32, Q * 4, KV * 4, KV * 4, Q * 4, nbQ * 4, nbQ * 32, D * 4, D * 4, D * 4,
    nbD * 4, nbD * 32, FF * 4, FF * 4, FF * 4, nbFF * 4, nbFF * 32, D * 4]

/-- The buffers of the final head: its logits and where they are staged. -/
def acquireHead (d₀ : DenseLayer) : Option FinalHead → Work (Option (FinalHead × Nat × Nat))
  | none => pure none
  | some head => do
    refuse (head.vocab = 0 ∨ (1 : UInt32) <<< (24 : UInt32) < head.vocab ∨ head.D ≠ d₀.D) .invalid
    let logits ← devbuf driver logitsSlot (head.vocab.toUInt64 * 4)
    let staging ← scratch driver 602 (head.vocab.toUInt64 * 4)
    pure (some (head, logits, staging))

def acquireIf (p : Prop) [Decidable p] (slot : UInt32) (bytes : UInt64) : Work (Option Nat) :=
  if p then do
    let b ← scratch driver slot bytes
    pure (some b)
  else pure none

/-- `vg_vk_dense_forward_impl` up to the submission of what it recorded. -/
def denseForwardImpl (L : List DenseLayer) (head : Option FinalHead) (rings : Rings) :
    Work (List Command × Rings) :=
  match L.head?, L.getLast? with
  | some d₀, some last => do
    refuse (d₀.D = 0 ∨ d₀.FF = 0 ∨ d₀.Qdim = 0 ∨ d₀.KVdim = 0 ∨ d₀.H = 0 ∨ d₀.HKV = 0 ∨ d₀.HD = 0)
      .invalid
    refuse (d₀.D % 32 ≠ 0 ∨ d₀.FF % 32 ≠ 0 ∨ d₀.Qdim % 32 ≠ 0) .unsupported
    refuse (∃ d ∈ L, d.D ≠ d₀.D ∨ d.FF ≠ d₀.FF ∨ d.Qdim ≠ d₀.Qdim ∨ d.KVdim ≠ d₀.KVdim) .invalid
    let bs ← (actSizes d₀).zipIdx.mapM fun r => devbuf driver (actSlot r.2) r.1
    let logits ← acquireHead driver d₀ head
    let input ← acquireIf driver (d₀.first ∧ d₀.hiddenIn) 600 (d₀.D.toUInt64 * 4)
    let out ← acquireIf driver (last.last ∧ last.hiddenOut) 601 (d₀.D.toUInt64 * 4)
    pure (record (fun i => bs.getD i 0) input out d₀ last L logits rings)
  | _, _ => throw .invalid

/-- `dense_gpu_layer_forward` once the weights are on the device: the caches of the layer and the
hidden state, which is kept once it is there. `cap` is the window of the caches. -/
def denseGpuLayerForward (d : DenseLayer) (layer cap : UInt32) (hidden : Option Nat) :
    Work DenseLayer := do
  let bytes := cap.toUInt64 * d.KVdim.toUInt64 * 4
  let kc ← devbuf driver (kSlot layer) bytes
  let vc ← devbuf driver (vSlot layer) bytes
  let hidden ← match hidden with
    | some b => pure b
    | none => devbuf driver hiddenSlot (d.D.toUInt64 * 4)
  pure { d with kCache := kc, vCache := vc, hiddenDev := hidden }

/-- The layers of a token, one after the other. -/
def denseLayers (cap : UInt32) : List DenseLayer → UInt32 → Option Nat → Work (List DenseLayer)
  | [], _, _ => pure []
  | d :: ds, layer, hidden => do
    let d ← denseGpuLayerForward driver d layer cap hidden
    let ds ← denseLayers cap ds (layer + 1) (some d.hiddenDev)
    pure (d :: ds)

/-- The dense path of `vg_model_graph_decode`: all layers are prepared, then recorded. -/
def denseForward (cap : UInt32) (ds : List DenseLayer) (hidden : Option Nat)
    (head : Option FinalHead) (rings : Rings) : Work (List Command × Rings) := do
  let L ← denseLayers driver cap ds 0 hidden
  denseForwardImpl driver L head rings

end Model

section Property

/-- The descriptor sets of a pipeline that a recording binds. -/
def setsOf (p : Pipeline) (cs : List Command) : List Nat := cs.filterMap fun
  | .bind q set _ => if q = p then some set else none
  | .dispatch _ _ | .copy _ _ => none

/-- The slots of device-local scratch that a token of `n` layers uses. -/
def denseSlots (n : Nat) (head : Bool) : List UInt32 :=
  hiddenSlot :: (((List.range n).flatMap fun l => [kSlot l.toUInt32, vSlot l.toUInt32]) ++
    (List.range 20).map actSlot ++ if head then [logitsSlot] else [])

end Property

end VgEngine.Vulkan
