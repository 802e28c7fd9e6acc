import VgEngine.Decode.Route
import VgEngine.Lib.Buffers
import Mathlib.Algebra.Order.Field.Basic
import Mathlib.Algebra.Order.BigOperators.Group.Finset
import Mathlib.Tactic.FieldSimp

/-! `moe_ffn_layer` on its buffers, in exact arithmetic. The caller's buffer is input, accumulator
and output, and every expert runs in the same scratch. -/
namespace VgEngine.Decode.MoeBlock
open Lib Lib.Buffers Model

inductive Buffer where
  | workEmbd | workRes | workMoeIn | routeLogits | weights | expertGate | expertUp | expertDown
  deriving DecidableEq

/-- A selected expert, or the one that always runs. -/
inductive Branch where
  | routed (i : Nat)
  | shared

/-- What a loop of the block reads a buffer for. -/
inductive Purpose where
  | saved | norm | router | route | exponent | weight
  | gate (b : Branch) | up (b : Branch) | swigluGate (b : Branch) | swigluUp (b : Branch)
  | down (b : Branch) | output (b : Branch) | sum (b : Branch)
  | projector | postNorm | total | residual

abbrev Block (F α : Type) := Logged (Buffers Buffer F) (Load Purpose Buffer F) α

/-- The functions of `math.h` that the block calls. -/
structure Libm (F : Type) where
  exp : F → F
  sqrt : F → F

/-- The rows of a weight, and what a product with them returns. -/
structure Rows (F : Type) where
  status : Status
  row : Nat → Nat → F

/-- A tensor that is used only in its expected shape. -/
structure VectorTensor (F : Type) where
  ggmlType : Nat
  nDims : Nat
  dim0 : Nat
  data : Nat → F

inductive ExpertKind where
  | gate | up | down

/-- The weights of the layer as they are acquired. -/
structure MoeWeights (F : Type) where
  ffnNorm : Except Status (Nat → F)
  ffnGateInp : Except Status (Rows F)
  acquireExpert : ExpertKind → Nat → Except Status (Rows F)
  ffnGateInpShexp : Except Status (VectorTensor F)
  ffnGateShexp : Except Status (Rows F)
  ffnUpShexp : Except Status (Rows F)
  ffnDownShexp : Except Status (Rows F)
  ffnPostNorm : Except Status (VectorTensor F)

section Kernels

variable {F : Type} [Field F] (libm : Libm F)

def memcpy (p : Purpose) (dst src : Buffer) (n : Nat) : Block F Unit := each dst n (load p src)

def memset (dst : Buffer) (n : Nat) : Block F Unit := each dst n fun _ => pure 0

def vgCpuRmsnorm (p : Purpose) (out x : Buffer) (weight : Option (Nat → F)) (dim : Nat) (eps : F) :
    Block F Unit := do
  let ss ← total dim fun i => do
    let v ← load p x i
    pure (v * v)
  let scale := 1 / libm.sqrt (ss / dim + eps)
  match weight with
  | some weight => each out dim fun i => do
    let v ← load p x i
    pure (v * scale * weight i)
  | none => each out dim fun i => do
    let v ← load p x i
    pure (v * scale)

def vgCpuSwiglu (b : Branch) (out gate up : Buffer) (dim : Nat) : Block F Unit :=
  each out dim fun i => do
    let g ← load (.swigluGate b) gate i
    let u ← load (.swigluUp b) up i
    pure (g / (1 + libm.exp (-g)) * u)

/-- The product that the kernels behind `mm_dispatch` make. -/
def mmDispatch (p : Purpose) (w : Rows F) (x y : Buffer) (outDim inDim : Nat) : Block F Status :=
  if w.status = .ok then do
    each y outDim fun o => total inDim fun j => do
      let v ← load p x j
      pure (w.row o j * v)
    pure .ok
  else pure w.status

/-- `hidden[j] += w * expert_down[j]` -/
def accumulate (b : Branch) (hidden : Buffer) (w : F) (n : Nat) : Block F Unit :=
  each hidden n fun j => do
    let acc ← load (.sum b) hidden j
    let v ← load (.output b) .expertDown j
    pure (acc + w * v)

end Kernels

section Layer

variable {F : Type} [Field F] [LinearOrder F] (libm : Libm F) (cfg : ModelConfig F)
variable (w : MoeWeights F)

/-- `FLT_MAX` -/
def fltMax : F := 2 ^ 128 - 2 ^ 104

/-- `route_weights`, with the ids as a function of the place in the selection. -/
def routeWeights (ids : Nat → Nat) (nUsed : Nat) : Block F Unit := do
  let mx ← loop (fun i mx => do
    let v ← load .route .routeLogits (ids i)
    pure (if mx < v then v else mx)) nUsed (-fltMax)
  let sum ← loop (fun i sum => do
    let v ← load .route .routeLogits (ids i)
    store .weights i (libm.exp (v - mx))
    let e ← load .exponent .weights i
    pure (sum + e)) nUsed 0
  if 0 < sum then
    each .weights nUsed fun i => do
      let v ← load .exponent .weights i
      pure (v / sum)
  else pure ()

/-- One pass of the loop over the selected experts. -/
def runExpert (xin hidden : Buffer) (ids : Nat → Nat) (i : Nat) : Block F Status := do
  let e := ids i
  match w.acquireExpert .gate e with
  | .error st => pure st
  | .ok wgate =>
  match w.acquireExpert .up e with
  | .error st => pure st
  | .ok wup => do
  let st ← mmDispatch (.gate (.routed i)) wgate xin .expertGate cfg.nFf cfg.nEmbd
  if st ≠ .ok then pure st else do
  let st ← mmDispatch (.up (.routed i)) wup xin .expertUp cfg.nFf cfg.nEmbd
  if st ≠ .ok then pure st else do
  vgCpuSwiglu libm (.routed i) .expertGate .expertGate .expertUp cfg.nFf
  match w.acquireExpert .down e with
  | .error st => pure st
  | .ok wdown => do
  let st ← mmDispatch (.down (.routed i)) wdown .expertGate .expertDown cfg.nEmbd cfg.nFf
  if st ≠ .ok then pure st else do
  let weight ← load .weight .weights i
  accumulate (.routed i) hidden weight cfg.nEmbd
  pure .ok

/-- The first experts of the selection in turn, up to one that fails. -/
def runExperts (xin hidden : Buffer) (ids : Nat → Nat) : Nat → Block F Status
  | 0 => pure .ok
  | i + 1 => do
    let st ← runExperts xin hidden ids i
    if st ≠ .ok then pure st else runExpert libm cfg w xin hidden ids i

/-- The projector of the shared expert, where it has the expected shape. -/
def sharedProjector : Option (Nat → F) :=
  match w.ffnGateInpShexp with
  | .ok t => if t.ggmlType = 0 ∧ t.nDims = 1 ∧ t.dim0 = cfg.nEmbd then some t.data else none
  | .error _ => none

/-- The gate of the shared expert. -/
def sharedGate (xin : Buffer) : Block F F :=
  match sharedProjector cfg w with
  | some gw => do
    let acc ← total cfg.nEmbd fun j => do
      let v ← load .projector xin j
      pure (gw j * v)
    pure (1 / (1 + libm.exp (-acc)))
  | none => pure 1

def runShared (xin hidden : Buffer) : Block F Unit := do
  let gate ← sharedGate libm cfg w xin
  match w.ffnGateShexp with
  | .error _ => pure ()
  | .ok lg =>
  match w.ffnUpShexp with
  | .error _ => pure ()
  | .ok lu => do
  let st ← mmDispatch (.gate .shared) lg xin .expertGate cfg.nFf cfg.nEmbd
  if st ≠ .ok then pure () else do
  let st ← mmDispatch (.up .shared) lu xin .expertUp cfg.nFf cfg.nEmbd
  if st ≠ .ok then pure () else do
  vgCpuSwiglu libm .shared .expertGate .expertGate .expertUp cfg.nFf
  match w.ffnDownShexp with
  | .error _ => pure ()
  | .ok ld => do
  let st ← mmDispatch (.down .shared) ld .expertGate .expertDown cfg.nEmbd cfg.nFf
  if st ≠ .ok then pure () else accumulate .shared hidden gate cfg.nEmbd

/-- The weight of the norm behind the block, where the model has one in the expected shape. -/
def postNormWeight : Option (Nat → F) :=
  if cfg.hasPostNorm then
    match w.ffnPostNorm with
    | .ok t => if t.nDims = 1 ∧ t.dim0 = cfg.nEmbd then some t.data else none
    | .error _ => none
  else none

def runPostNorm (hidden : Buffer) : Block F Unit :=
  match postNormWeight cfg w with
  | some weight => vgCpuRmsnorm libm .postNorm hidden hidden (some weight) cfg.nEmbd cfg.rmsEps
  | none => pure ()

/-- `moe_ffn_layer`. `moeIn` tells whether `work_moe_in` is there. -/
def moeFfnLayer (memory : RouteMemory) (moeIn : Bool) (hidden : Buffer) : Block F Status := do
  let xin := if moeIn then .workMoeIn else .workEmbd
  memcpy .saved .workRes hidden cfg.nEmbd
  match w.ffnNorm with
  | .ok l => vgCpuRmsnorm libm .norm xin hidden (some l) cfg.nEmbd cfg.rmsEps
  | .error _ => memcpy .norm xin hidden cfg.nEmbd
  match w.ffnGateInp with
  | .error st => pure st
  | .ok l => do
  let st ← mmDispatch .router l xin .routeLogits cfg.nExpert cfg.nEmbd
  if st ≠ .ok then pure st
  else if 16 < cfg.nExpertUsed then pure .unsupported
  else do
  let m ← Logged.get
  let (st, state) := vgModelGraphMoeRoute (fun a b => decide (b < a)) cfg.nExpert cfg.nExpertUsed
    memory (some (m .routeLogits)) none ⟨0, 0, some []⟩
  if st ≠ .ok then pure st else do
  let ids i := (state.expertIds.getD []).getD i 0
  routeWeights libm ids state.nExpertUsed
  memset hidden cfg.nEmbd
  let st ← runExperts libm cfg w xin hidden ids state.nExpertUsed
  if st ≠ .ok then pure st else do
  Logged.onlyIf (cfg.hasSharedExpert = true) (runShared libm cfg w xin hidden)
  runPostNorm libm cfg w hidden
  each hidden cfg.nEmbd fun j => do
    let v ← load .total hidden j
    let r ← load .residual .workRes j
    pure (v + r)
  pure .ok

end Layer

end VgEngine.Decode.MoeBlock
