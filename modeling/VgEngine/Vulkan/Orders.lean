import VgEngine.Lib.CommandBuffer
import VgEngine.Vulkan.Dense

/-! What the backend records, with its barriers and push constants, and the two runs of dispatches
that its recordings share. A dispatch is given with the buffers that its descriptor set binds. -/
namespace VgEngine.Vulkan
open VgEngine.Lib CommandBuffer

section Orders

inductive Stage where
  | transfer | compute
deriving DecidableEq

inductive Access where
  | transferRead | transferWrite | shaderRead | shaderWrite
deriving DecidableEq

def Stage.read : Stage → Access
  | .transfer => .transferRead
  | .compute => .shaderRead

def Stage.write : Stage → Access
  | .transfer => .transferWrite
  | .compute => .shaderWrite

inductive PushConstant (F : Type) where
  | uint (n : UInt32)
  | float (x : F)

/-- `vkCmdDispatch`, `vkCmdCopyBuffer` and `vkCmdPipelineBarrier`. -/
inductive Order (P F : Type) where
  | dispatch (p : P) (bufs : List Nat) (push : List (PushConstant F)) (groups : UInt32)
  | copy (src dst : Nat) (bytes dstOffset : UInt64)
  | barrier (src dst : Stage) (srcAccess dstAccess : Access)

section Barriers

variable {P F : Type}

/-- `bar` -/
def bar : Order P F := .barrier .compute .compute .shaderWrite .shaderRead

/-- Before the shaders read what a copy wrote. -/
def uploaded : Order P F := .barrier .transfer .compute .transferWrite .shaderRead

/-- Before a copy reads what the shaders wrote. -/
def computed : Order P F := .barrier .compute .transfer .shaderWrite .transferRead

end Barriers

/-- The bindings that a shader reads, and those it writes. -/
class Shader (P : Type) where
  reads : P → List Nat
  writes : P → List Nat

/-- What the shaders write, by the number of the written binding, and what a copy makes of the
buffer it goes to. -/
structure Kernels (P F α : Type) where
  main : P → UInt32 → List (PushConstant F) → List α → Nat → α
  copy : UInt64 → UInt64 → α → α → α

instance : Shader Pipeline where
  reads
    | .matvecQ8_0 => [0, 1, 2, 3]
    | .actQuant => [0]
    | .attnScores => [0, 1, 2]
    | .rmsnorm | .ropeAdj | .swiglu | .residAdd => [0, 1]
  writes
    | .matvecQ8_0 => [4]
    | .actQuant => [1, 2]
    | .ropeAdj => [0]
    | .attnScores => [3]
    | .rmsnorm | .swiglu | .residAdd => [2]

variable {P F α : Type} [Shader P] (K : Kernels P F α)

def bound (bufs bindings : List Nat) : List Nat := bindings.filterMap fun i => bufs[i]?

def Kernels.dispatch (p : P) (bufs : List Nat) (push : List (PushConstant F)) (groups : UInt32) :
    Job Stage Nat α where
  stage := .compute
  reads := bound bufs (Shader.reads p)
  writes := bound bufs (Shader.writes p)
  run m b :=
    if b ∈ bound bufs (Shader.writes p) then
      K.main p groups push ((bound bufs (Shader.reads p)).map m)
        ((bound bufs (Shader.writes p)).idxOf b)
    else m b
  frame := by
    intro m b hb
    exact if_neg hb
  reads_only := by
    intro m m' h b hb
    simp only [if_pos hb]
    rw [List.map_congr_left h]

/-- The bytes of the target that are not copied to stay as they are. -/
def Kernels.copyBuffer (src dst : Nat) (bytes dstOffset : UInt64) : Job Stage Nat α where
  stage := .transfer
  reads := [src, dst]
  writes := [dst]
  run m := Function.update m dst (K.copy bytes dstOffset (m src) (m dst))
  frame := by
    intro m b hb
    exact Function.update_of_ne (by simpa using hb) _ _
  reads_only := by
    intro m m' h b hb
    rw [List.mem_singleton.1 hb, Function.update_self, Function.update_self, h src (by simp),
      h dst (by simp)]

def Kernels.item : Order P F → Item Stage Nat α
  | .dispatch p bufs push groups => .job (K.dispatch p bufs push groups)
  | .copy src dst bytes dstOffset => .job (K.copyBuffer src dst bytes dstOffset)
  | .barrier src dst srcAccess dstAccess =>
    .barrier ⟨src, dst, srcAccess = src.write, dstAccess = dst.read⟩

def Kernels.items (os : List (Order P F)) : List (Item Stage Nat α) := os.map K.item

end Orders

section Recordings

variable {P F α : Type} [Shader P] {K : Kernels P F α} {m : Nat → α} {l : List (Order P F)}

/-- A dispatch that writes one buffer. -/
theorem dispatch_run {p : P} {bufs : List Nat} {push : List (PushConstant F)} {groups : UInt32}
    {o : Nat} (h : bound bufs (Shader.writes p) = [o]) :
    (K.dispatch p bufs push groups).run m =
      Function.update m o (K.main p groups push ((bound bufs (Shader.reads p)).map m) 0) := by
  funext b
  simp only [Kernels.dispatch, h, List.mem_singleton, Function.update_apply]
  split
  next heq => simp [heq]
  next => rfl

theorem items_append (os os' : List (Order P F)) :
    K.items (os ++ os') = K.items os ++ K.items os' := List.map_append

theorem items_cons (o : Order P F) (os : List (Order P F)) :
    K.items (o :: os) = K.item o :: K.items os := rfl

@[simp] theorem recorded_bar : recorded (K.items (bar :: l)) m = recorded (K.items l) m := rfl

@[simp] theorem recorded_uploaded :
    recorded (K.items (uploaded :: l)) m = recorded (K.items l) m := rfl

@[simp] theorem recorded_computed :
    recorded (K.items (computed :: l)) m = recorded (K.items l) m := rfl

@[simp] theorem recorded_copy (src dst : Nat) (bytes dstOffset : UInt64) :
    recorded (K.items (.copy src dst bytes dstOffset :: l)) m = recorded (K.items l)
      (Function.update m dst (K.copy bytes dstOffset (m src) (m dst))) := rfl

theorem recorded_items_nil : recorded (K.items []) m = m := rfl

end Recordings

section Dispatches

variable {F : Type}

/-- `mvec` -/
def mvec (w s xd xq y : Nat) (rows cols : UInt32) : Order Pipeline F :=
  .dispatch .matvecQ8_0 [w, s, xd, xq, y] [.uint rows, .uint cols] ((rows + 7) / 8)

def rnorm (x w y : Nat) (dim : UInt32) (eps : F) : Order Pipeline F :=
  .dispatch .rmsnorm [x, w, y] [.uint dim, .float eps] 1

def quant (x xd xq : Nat) (nb : UInt32) : Order Pipeline F :=
  .dispatch .actQuant [x, xd, xq] [.uint nb] nb

def radd (a b o : Nat) (n : UInt32) : Order Pipeline F :=
  .dispatch .residAdd [a, b, o] [.uint n] ((n + 255) / 256)

def swish (gate up out : Nat) (n : UInt32) : Order Pipeline F :=
  .dispatch .swiglu [gate, up, out] [.uint n] ((n + 255) / 256)

def rope (qk freq : Nat) (hd nh nrot pos : UInt32) (base : F) (hf : UInt32) : Order Pipeline F :=
  .dispatch .ropeAdj [qk, freq] [.uint hd, .uint nrot, .uint nh, .uint pos, .float base, .uint hf]
    ((nrot / 2 * nh + 63) / 64)

def attn (d₀ : DenseLayer) (pos : UInt32) (q k v o : Nat) : Order Pipeline F :=
  .dispatch .attnScores [q, k, v, o]
    [.uint d₀.HD, .uint d₀.H, .uint d₀.HKV, .uint d₀.KVdim, .uint (pos + 1)] d₀.H

/-- From a quantized input to the quantized norm of the residual: a matrix, the addition, the norm
and the quantizer. -/
def projectNorm (w s ad aq po resid h normW xn xd xq : Nat) (D Q : UInt32) (eps : F) :
    List (Order Pipeline F) :=
  [mvec w s ad aq po D Q, bar,
    radd po resid h D, bar,
    rnorm h normW xn D eps, bar,
    quant xn xd xq (D / 32), bar]

/-- A feed-forward block on a quantized input. -/
def feedForward (gw gs uw us dw ds xd xq g u mid md mq y : Nat) (D FF : UInt32) :
    List (Order Pipeline F) :=
  [mvec gw gs xd xq g FF D, bar,
    mvec uw us xd xq u FF D, bar,
    swish g u mid FF, bar,
    quant mid md mq (FF / 32), bar,
    mvec dw ds md mq y D FF]

end Dispatches

section Values

variable {F α : Type} (K : Kernels Pipeline F α)

def Kernels.mvec (rows cols : UInt32) (w s xd xq : α) : α :=
  K.main .matvecQ8_0 ((rows + 7) / 8) [.uint rows, .uint cols] [w, s, xd, xq] 0

/-- The scales of `act_quant`, and its packed values. -/
def Kernels.quant (nb : UInt32) (x : α) (output : Nat) : α :=
  K.main .actQuant nb [.uint nb] [x] output

/-- A matrix on a vector that is quantized first. -/
def Kernels.matvec (rows cols : UInt32) (w s x : α) : α :=
  K.mvec rows cols w s (K.quant (cols / 32) x 0) (K.quant (cols / 32) x 1)

def Kernels.rnorm (dim : UInt32) (eps : F) (x w : α) : α :=
  K.main .rmsnorm 1 [.uint dim, .float eps] [x, w] 0

def Kernels.radd (n : UInt32) (a b : α) : α :=
  K.main .residAdd ((n + 255) / 256) [.uint n] [a, b] 0

def Kernels.swish (n : UInt32) (gate up : α) : α :=
  K.main .swiglu ((n + 255) / 256) [.uint n] [gate, up] 0

def Kernels.rope (hd nh nrot pos : UInt32) (base : F) (hf : UInt32) (qk freq : α) : α :=
  K.main .ropeAdj ((nrot / 2 * nh + 63) / 64)
    [.uint hd, .uint nrot, .uint nh, .uint pos, .float base, .uint hf] [qk, freq] 0

def Kernels.attn (d₀ : DenseLayer) (pos : UInt32) (q k v : α) : α :=
  K.main .attnScores d₀.H
    [.uint d₀.HD, .uint d₀.H, .uint d₀.HKV, .uint d₀.KVdim, .uint (pos + 1)] [q, k, v] 0

/-- The feed-forward block of a quantized vector. -/
def Kernels.ffn (D FF : UInt32) (gw gs uw us dw ds xd xq : α) : α :=
  K.matvec D FF dw ds (K.swish FF (K.mvec FF D gw gs xd xq) (K.mvec FF D uw us xd xq))

variable {K} {m : Nat → α} {l : List (Order Pipeline F)}

@[simp] theorem recorded_mvec (w s xd xq y : Nat) (rows cols : UInt32) :
    recorded (K.items (mvec w s xd xq y rows cols :: l)) m =
      recorded (K.items l) (Function.update m y (K.mvec rows cols (m w) (m s) (m xd) (m xq))) :=
  congrArg (recorded (K.items l)) (dispatch_run rfl)

@[simp] theorem recorded_rnorm (x w y : Nat) (dim : UInt32) (eps : F) :
    recorded (K.items (rnorm x w y dim eps :: l)) m =
      recorded (K.items l) (Function.update m y (K.rnorm dim eps (m x) (m w))) :=
  congrArg (recorded (K.items l)) (dispatch_run rfl)

@[simp] theorem recorded_radd (a b o : Nat) (n : UInt32) :
    recorded (K.items (radd a b o n :: l)) m =
      recorded (K.items l) (Function.update m o (K.radd n (m a) (m b))) :=
  congrArg (recorded (K.items l)) (dispatch_run rfl)

@[simp] theorem recorded_swish (gate up out : Nat) (n : UInt32) :
    recorded (K.items (swish gate up out n :: l)) m =
      recorded (K.items l) (Function.update m out (K.swish n (m gate) (m up))) :=
  congrArg (recorded (K.items l)) (dispatch_run rfl)

@[simp] theorem recorded_rope (qk freq : Nat) (hd nh nrot pos : UInt32) (base : F) (hf : UInt32) :
    recorded (K.items (rope qk freq hd nh nrot pos base hf :: l)) m = recorded (K.items l)
      (Function.update m qk (K.rope hd nh nrot pos base hf (m qk) (m freq))) :=
  congrArg (recorded (K.items l)) (dispatch_run rfl)

@[simp] theorem recorded_attn (d₀ : DenseLayer) (q k v o : Nat) (pos : UInt32) :
    recorded (K.items (attn d₀ pos q k v o :: l)) m = recorded (K.items l)
      (Function.update m o (K.attn d₀ pos (m q) (m k) (m v))) :=
  congrArg (recorded (K.items l)) (dispatch_run rfl)

/-- The quantizer writes two buffers, the scales first. -/
@[simp] theorem recorded_quant (x xd xq : Nat) (nb : UInt32) :
    recorded (K.items (quant x xd xq nb :: l)) m = recorded (K.items l)
      (Function.update (Function.update m xq (K.quant nb (m x) 1)) xd (K.quant nb (m x) 0)) := by
  refine congrArg (recorded (K.items l)) (funext fun b => ?_)
  have hwrites : bound [x, xd, xq] (Shader.writes Pipeline.actQuant) = [xd, xq] := rfl
  have hreads : bound [x, xd, xq] (Shader.reads Pipeline.actQuant) = [x] := rfl
  simp only [Kernels.dispatch, hwrites, hreads, List.mem_cons, List.not_mem_nil, or_false,
    Function.update_apply]
  by_cases hxd : b = xd
  · simp [hxd, Kernels.quant]
  · by_cases hxq : b = xq
    · have hne : ¬xq = xd := fun h => hxd (hxq.trans h)
      simp [hxq, Kernels.quant, hne, List.idxOf_cons_ne _ (Ne.symm hne)]
    · simp [hxd, hxq]

section Parts

variable {w s ad aq po resid h normW xn xd xq gw gs uw us dw ds g u mid md mq y : Nat}
variable {D Q FF : UInt32} {eps : F}

/-- The norm that follows reads the sum where it was put. -/
theorem projectNorm_run (K : Kernels Pipeline F α) (m : Nat → α)
    (w s ad aq po resid h normW xn xd xq : Nat) (D Q : UInt32) (eps : F)
    (hnodup : [po, h, xn, xq, xd].Nodup)
    (hreads : ∀ b ∈ [w, s, ad, aq, resid, normW], b ∉ [po, h, xn, xq, xd]) :
    let r := recorded (K.items (projectNorm w s ad aq po resid h normW xn xd xq D Q eps)) m
    let sum := K.radd D (K.mvec D Q (m w) (m s) (m ad) (m aq)) (m resid)
    let x := K.rnorm D eps sum (m normW)
    r h = sum ∧ r xd = K.quant (D / 32) x 0 ∧ r xq = K.quant (D / 32) x 1 ∧
      ∀ b ∉ [po, h, xn, xq, xd], r b = m b := by
  simp only [List.forall_mem_cons] at hreads
  simp only [List.nodup_cons, List.mem_cons, List.not_mem_nil, or_false, not_or] at hnodup hreads
  intro r sum x
  refine ⟨?_, ?_, ?_, fun b hb => ?_⟩
  · simp [r, sum, projectNorm, hnodup, hreads, recorded_items_nil]
  · simp [r, sum, x, projectNorm, hreads, recorded_items_nil]
  · simp [r, sum, x, projectNorm, hnodup, hreads, recorded_items_nil]
  · simp only [List.mem_cons, List.not_mem_nil, or_false, not_or] at hb
    simp [r, projectNorm, hb, recorded_items_nil]

theorem feedForward_run (K : Kernels Pipeline F α) (m : Nat → α)
    (gw gs uw us dw ds xd xq g u mid md mq y : Nat) (D FF : UInt32)
    (hnodup : [g, u, mid, mq, md, y].Nodup)
    (hreads : ∀ b ∈ [gw, gs, uw, us, dw, ds, xd, xq], b ∉ [g, u, mid, mq, md, y]) :
    let r := recorded (K.items (feedForward gw gs uw us dw ds xd xq g u mid md mq y D FF)) m
    r y = K.ffn D FF (m gw) (m gs) (m uw) (m us) (m dw) (m ds) (m xd) (m xq) ∧
      ∀ b ∉ [g, u, mid, mq, md, y], r b = m b := by
  simp only [List.forall_mem_cons] at hreads
  simp only [List.nodup_cons, List.mem_cons, List.not_mem_nil, or_false, not_or] at hnodup hreads
  intro r
  constructor
  · simp [r, feedForward, hnodup, hreads, recorded_items_nil]
    rfl
  · intro b hb
    simp only [List.mem_cons, List.not_mem_nil, or_false, not_or] at hb
    simp [r, feedForward, hb, recorded_items_nil]

end Parts

end Values

section Links

variable {P F α : Type} [Shader P] {K : Kernels P F α} {rest : List (Item Stage Nat α)}

/-- The barriers that a recording uses. -/
theorem chained_bar : Chained .compute (K.item bar :: rest) ↔ Chained .compute rest := by
  simp [Kernels.item, bar, Chained, Stage.read, Stage.write]

theorem chained_uploaded : Chained .transfer (K.item uploaded :: rest) ↔ Chained .compute rest := by
  simp [Kernels.item, uploaded, Chained, Stage.read, Stage.write]

theorem chained_computed : Chained .compute (K.item computed :: rest) ↔ Chained .transfer rest := by
  simp [Kernels.item, computed, Chained, Stage.read, Stage.write]

theorem chained_copy {src dst : Nat} {bytes offset : UInt64} :
    Chained .transfer (K.item (.copy src dst bytes offset) :: rest) ↔ Chained .transfer rest :=
  and_iff_right rfl

omit [Shader P] in
/-- Copies to different places do not depend on each other. -/
theorem copies_apart {src dst src' dst' : Nat} {bytes offset bytes' offset' : UInt64}
    (h : dst ≠ src') (h' : dst' ≠ src) (hdst : dst ≠ dst') :
    ¬Conflict (K.copyBuffer src dst bytes offset) (K.copyBuffer src' dst' bytes' offset') := by
  simp [Conflict, Kernels.copyBuffer]
  tauto

end Links

section Chains

variable {F α : Type} {K : Kernels Pipeline F α} {rest : List (Item Stage Nat α)}
variable {w s ad aq po resid h normW xn xd xq gw gs uw us dw ds g u mid md mq y : Nat}
variable {D Q FF : UInt32} {eps : F}

/-- Both parts lead from the shaders to the shaders, with a barrier behind every dispatch. -/
theorem chained_projectNorm : Chained .compute
    (K.items (projectNorm w s ad aq po resid h normW xn xd xq D Q eps) ++ rest) ↔
      Chained .compute rest := by
  simp [Kernels.items, projectNorm, Kernels.item, Chained, mvec, radd, rnorm, quant, bar,
    Kernels.dispatch, Stage.read, Stage.write]

theorem apart_projectNorm :
    Apart (K.items (projectNorm w s ad aq po resid h normW xn xd xq D Q eps) ++ rest) ↔
      Apart rest := by
  simp [Kernels.items, projectNorm, Kernels.item, Apart, group, mvec, radd, rnorm, quant, bar]

theorem chained_feedForward : Chained .compute
    (K.items (feedForward gw gs uw us dw ds xd xq g u mid md mq y D FF) ++ rest) ↔
      Chained .compute rest := by
  simp [Kernels.items, feedForward, Kernels.item, Chained, mvec, swish, quant, bar,
    Kernels.dispatch, Stage.read, Stage.write]

theorem apart_feedForward (hrest : group rest = []) :
    Apart (K.items (feedForward gw gs uw us dw ds xd xq g u mid md mq y D FF) ++ rest) ↔
      Apart rest := by
  simp [Kernels.items, feedForward, Kernels.item, Apart, group, mvec, swish, quant, bar, hrest]

end Chains

end VgEngine.Vulkan
