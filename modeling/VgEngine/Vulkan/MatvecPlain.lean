import VgEngine.Vulkan.MatvecK

/-! The shaders `matvec_f32`, `matvec_f16` and `matvec_q4_0` under the bindings, the push constants and
the number of workgroups that `dispatch_matvec_batch` sets up for all three. What a buffer holds
behind its end, and a scratch buffer before the dispatch, is arbitrary. -/
namespace VgEngine.Vulkan
open VgEngine.Lib VgEngine.Quant

/-- The types whose weights go to the device as they are, other than those of blocks of 256. -/
inductive PlainKind
  | f32
  | f16
  | q4_0

namespace PlainKind

def type : PlainKind → Nat
  | f32 => 0
  | f16 => 1
  | q4_0 => 2

def blockSize : PlainKind → Nat
  | q4_0 => 32
  | _ => 1

def bytesPerBlock : PlainKind → Nat
  | f32 => 4
  | f16 => 2
  | q4_0 => 18

end PlainKind

section Host

/-- The four buffers of `bind_buffers`, by the number of the binding. -/
structure Bindings where
  weights : Words
  scales : Words
  xb : Nat → ℚ
  yb : Nat → ℚ

/-- The buffer of scales that `vk_matmul` uploads: one `float`, and what is behind it. -/
def oneScale (behind : Words) : Words := fun i => if i = 0 then 0x3F800000 else behind i

/-- `uint32_t p[3] = {1u, r->in_dim, r->out_dim};` -/
def pushConstants (outDim inDim : Nat) (slot : Nat) : Nat := [1, inDim, outDim].getD slot 0

/-- `(r->out_dim + 63u) / 64u` -/
def plainGroups (outDim : Nat) : Nat := (outDim + 63) % 2 ^ 32 / 64

end Host

section Shaders

variable (b : Bindings) (push : Nat → Nat)

/-- The orders in which the 64 lanes of a workgroup of `matvec_f32` act between the barriers. -/
structure LaneOrders where
  first : List (Unit × Nat)
  reduce : Nat → List (Unit × Nat)
  first_perm : (first.map Prod.snd).Perm (List.range 64)
  reduce_perm : ∀ k, ((reduce k).map Prod.snd).Perm (List.range 64)

/-- The stores of a workgroup of `matvec_f32` into its third buffer. -/
def matvecF32 (s : LaneOrders) (row : Nat) : List (Nat × ℚ) :=
  let inDim := push 0
  let outDim := push 1
  if outDim ≤ row then []
  else
    let base := row * inDim % 2 ^ 32
    let acc := fun lane => (strided inDim 64 lane).foldl (fun acc k =>
      acc + exactFloats.single (b.weights ((base + k) % 2 ^ 32)) * exactFloats.single (b.scales k)) 0
    let red := runPhase (fun i (_ : Unit × Nat → ℚ) => acc i.2) s.first 0
    [(row, treeReduce s.reduce 6 red ((), 0))]

/-- `load_u16` -/
def loadU16 (w : Words) (index : Nat) : UInt32 :=
  let word := w (index >>> 1)
  if index &&& 1 = 0 then word &&& 0xFFFF else word >>> (16 : UInt32)

/-- The store of an invocation of `matvec_f16` into its fourth buffer. -/
def matvecF16 (linear : Nat) : List (Nat × ℚ) :=
  let rows := push 0
  let inputDim := push 1
  let outputDim := push 2
  let total := rows * outputDim % 2 ^ 32
  if total ≤ linear then []
  else
    let row := linear / outputDim
    let o := linear - row * outputDim
    let base := o * inputDim % 2 ^ 32
    let xbase := row * inputDim % 2 ^ 32
    let acc := (List.range inputDim).foldl (fun acc k =>
      acc + exactFloats.single (decodeF16 (loadU16 b.weights ((base + k) % 2 ^ 32))) *
        b.xb ((xbase + k) % 2 ^ 32)) 0
    [(linear, acc * exactFloats.single (decodeF16 (loadU16 b.scales o)))]

/-- The store of an invocation of `matvec_q4_0`. -/
def matvecQ4_0 (linear : Nat) : List (Nat × ℚ) :=
  let rows := push 0
  let inputDim := push 1
  let outputDim := push 2
  let total := rows * outputDim % 2 ^ 32
  if total ≤ linear then []
  else
    let row := linear / outputDim
    let o := linear - row * outputDim
    let blocksPerRow := inputDim / 32
    let oBlocks := outputDim / 32
    let blockRow := (row * oBlocks + o / 32) % 2 ^ 32
    let d := exactFloats.single (decodeF16 (loadU16 b.scales blockRow))
    let xbase := row * inputDim % 2 ^ 32
    let weightBase := blockRow * blocksPerRow % 2 ^ 32
    let acc := (List.range blocksPerRow).foldl (fun acc gb =>
      let packed := b.weights ((weightBase + gb) % 2 ^ 32)
      (List.range 16).foldl (fun acc j =>
        let val0 := (packed >>> UInt32.ofNat (j * 2)) &&& 1
        let val1 := (packed >>> UInt32.ofNat (j * 2 + 1)) &&& 1
        acc + ((val0.toNat : ℚ) - 1 / 2) * 2 * d * b.xb ((xbase + gb * 32 + j) % 2 ^ 32) +
          ((val1.toNat : ℚ) - 1 / 2) * 2 * d * b.xb ((xbase + gb * 32 + 16 + j) % 2 ^ 32)) acc) 0
    [(linear, acc)]

/-- The order in which the workgroups, or the invocations, of a dispatch come to store. -/
structure PlainRun (groups : Nat) where
  lanes : LaneOrders
  workgroups : List Nat
  invocations : List Nat
  workgroups_perm : workgroups.Perm (List.range groups)
  invocations_perm : invocations.Perm (List.range (groups * 64))

/-- The vector that `dispatch_matvec_batch` copies back from the fourth buffer. -/
def dispatchPlain (k : PlainKind) (weights scales : Words) (x yb : Nat → ℚ) (outDim inDim : Nat)
    (run : PlainRun (plainGroups outDim)) : Nat → ℚ :=
  let b : Bindings := ⟨weights, scales, x, yb⟩
  let push := pushConstants outDim inDim
  let after : Bindings :=
    match k with
    | .f32 => { b with xb := storeAll b.xb (run.workgroups.flatMap (matvecF32 b push run.lanes)) }
    | .f16 => { b with yb := storeAll b.yb (run.invocations.flatMap (matvecF16 b push)) }
    | .q4_0 => { b with yb := storeAll b.yb (run.invocations.flatMap (matvecQ4_0 b push)) }
  after.yb

/-- The scales that are bound: those of the caller for Q4_0, and else the one that `vk_matmul`
uploads. -/
def boundScales (k : PlainKind) (scales behind : Words) : Words :=
  match k with
  | .q4_0 => scales
  | _ => oneScale behind

/-- Whatever the input, the device gives the vector of `vg_cpu_matmul`. -/
def DeviceAgrees (k : PlainKind) (W : Ptr) (scales : Words) (outDim inDim : Nat) : Prop :=
  ∀ (x yb : Nat → ℚ) (behind : Words) (run : PlainRun (plainGroups outDim)),
    ∃ cpu, vgCpuMatmul exactFloats k.type W x 0 outDim inDim (outDim + 1) false 1 none none =
        some (.ok, cpu) ∧
      ∀ o < outDim, dispatchPlain k (uploadWords W) (boundScales k scales behind) x yb outDim inDim
        run o = cpu o

/-- The sign that `matvec_q4_0` reads for an element is the bit `2 * j` of a word for the element `j`
of a lower half of a block, and the bit `2 * j + 1` for that of an upper half. -/
def signBit (W : Ptr) (inDim o i : Nat) : Bool :=
  (uploadWords W ((o / 32 * (inDim / 32) % 2 ^ 32 + i / 32) % 2 ^ 32)).toNat.testBit
    (i % 16 * 2 + i % 32 / 16)

/-- The half that `matvec_q4_0` adds or takes away. -/
def signed (positive : Bool) (d : ℚ) : ℚ := (if positive then 1 else -1) * d

/-- When the device gives the vector for every input. -/
def AgreesWhen (k : PlainKind) (W : Ptr) (scales : Words) (outDim inDim : Nat) : Prop :=
  match k with
  | .f32 => False
  | .f16 => outDim + 63 < 2 ^ 32 ∧
    ∀ o < outDim, ∀ i < inDim, vgHalfToFloat exactFloats (W.u16 ((o * inDim + i) * 2)) = 0
  | .q4_0 => outDim + 63 < 2 ^ 32 ∧ ∀ o < outDim, ∀ i < inDim,
    element exactFloats 2 (W.plus (o * (inDim / 32 * 18))) i =
      signed (signBit W inDim o i) (exactFloats.single (decodeF16 (loadU16 scales (o / 32))))

end Shaders

end VgEngine.Vulkan
