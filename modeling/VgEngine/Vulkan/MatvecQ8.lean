import VgEngine.Lib.Workgroup
import VgEngine.Quant.Layout
import VgEngine.Lib.Stores

/-! The device path of Q8_0: what `vk_q8_prepare` makes of the weights, what
`quantize_row_q8_0_host` makes of the activations, and the shader `matvec_q8_0` over both. -/
namespace VgEngine.Vulkan
open VgEngine.Lib VgEngine.Quant

/-- The words of a buffer. -/
abbrev Words := Nat → UInt32

section Host

/-- The loop that copies the codes of each block, over what `malloc` returned. -/
def repackCodes (p : Ptr) (nb : Nat) (fresh : Ptr) : Words :=
  let qs := storeAll fresh <| (List.range nb).flatMap fun b => storesAt (b * 32) <|
    (List.range 32).map fun k => (k, p (b * 34 + 2 + k))
  fun i => Ptr.u32 qs (i * 4)

/-- The loop `for (i = 0; i < nb; i += 2)` over pairs of scales. -/
def repackScales (p : Ptr) (nb : Nat) (fresh : Words) : Words :=
  storeAll fresh <| (List.range ((nb + 1) / 2)).map fun k =>
    let i := 2 * k
    let s0 := p.u16 (i * 34)
    let s1 := if i + 1 < nb then p.u16 ((i + 1) * 34) else 0
    (i / 2, s0.toUInt32 ||| s1.toUInt32 <<< (16 : UInt32))

/-- `vk_q8_prepare`, where the allocations succeed and `cached` are the buffers that the cache has under
the key for each tag. -/
def vkQ8Prepare (cached : Nat → Option Words) (tag : Nat) (wdata : Ptr) (outDim inDim : Nat)
    (freshCodes : Ptr) (freshScales : Words) : Except Status (Words × Words) :=
  if inDim % 32 ≠ 0 ∨ outDim * (inDim / 32) % 2 ^ 32 = 0 then .error .unsupported
  else
    let nb := outDim * (inDim / 32) % 2 ^ 32
    .ok ((cached tag).getD (repackCodes wdata nb freshCodes),
      (cached (tag ||| 1)).getD (repackScales wdata nb freshScales))

def clampCode (q : Int) : Int :=
  let q := if 127 < q then 127 else q
  if q < -128 then -128 else q

/-- The four codes of a word. -/
def packCodes (q : Nat → Int) : UInt32 :=
  (List.range 4).foldl
    (fun w j => w ||| UInt32.ofNat (q j % 256).toNat <<< UInt32.ofNat (j * 8)) 0

variable {F : Type*}

/-- The stores of `quantize_row_q8_0_host`, where `d` are the scales of the blocks and `rounded` what
`lround` makes of the scaled activations. -/
def quantizeRowQ8_0Host (d : Nat → F) (rounded : Nat → Nat → Int) (nb : Nat) :
    List (Nat × F) × List (Nat × UInt32) :=
  ((List.range nb).map fun b => (b, d b),
    (List.range nb).flatMap fun b => (List.range 8).map fun g =>
      (b * 8 + g, packCodes fun j => clampCode (rounded b (g * 4 + j))))

end Host

section Shader

/-- `do { m <<= 1; ++e; } while ((m & 0x400) == 0);` -/
def shiftUp : Nat → UInt32 → Int → UInt32 × Int
  | 0, m, e => (m, e)
  | fuel + 1, m, e =>
    let m := m <<< 1
    let e := e + 1
    if m &&& 0x400 = 0 then shiftUp fuel m e else (m, e)

/-- The bits that `decode_f16` hands to `uintBitsToFloat`. Ten shifts bring the highest bit of the
significand of a subnormal up. -/
def decodeF16 (h : UInt32) : UInt32 :=
  let sign := (h >>> 15) &&& 1
  let exp := (h >>> 10) &&& 0x1F
  let mantissa := h &&& 0x3FF
  if exp = 0 then
    if mantissa = 0 then sign <<< 31
    else
      let shifted := shiftUp 10 mantissa (-1)
      sign <<< (31 : UInt32) ||| UInt32.ofInt (127 - 15 - shifted.2) <<< (23 : UInt32) |||
        (shifted.1 &&& 0x3FF) <<< (13 : UInt32)
  else if exp = 31 then sign <<< (31 : UInt32) ||| 0x7F800000 ||| mantissa <<< (13 : UInt32)
  else sign <<< (31 : UInt32) ||| (exp + 127 - 15) <<< (23 : UInt32) ||| mantissa <<< (13 : UInt32)

/-- A byte of a word, as a signed number. -/
def packedByte (w : UInt32) (j : Nat) : Int := int8 (w >>> UInt32.ofNat (8 * j)).toUInt8

/-- `dotPacked4x8EXT` on signed words. -/
def dotPacked4x8 (a b : UInt32) : Int :=
  ((List.range 4).map fun j => packedByte a j * packedByte b j).sum

variable {F : Type*} [Zero F] [Add F] [Mul F] [IntCast F] (fl : Floats F)

/-- What the shader reads: the four buffers and the push constants. -/
structure Bound (F : Type*) where
  wq : Words
  ws : Words
  xd : Nat → F
  xq : Words
  outDim : Nat
  inDim : Nat

variable (b : Bound F)

/-- The loop of a lane over its blocks of a row. -/
def laneAcc (row lane : Nat) : F :=
  let bpr := b.inDim / 32
  (strided bpr 32 lane).foldl (fun acc gb =>
    let blk := (row * bpr + gb) % 2 ^ 32
    let a := (List.range 8).foldl (fun a w =>
      (a + dotPacked4x8 (b.wq ((blk * 8 + w) % 2 ^ 32)) (b.xq ((gb * 8 + w) % 2 ^ 32))).bmod (2 ^ 32))
      (0 : Int)
    let sw := b.ws (blk >>> 1)
    let su := if blk &&& 1 = 0 then sw &&& 0xFFFF else sw >>> 16
    acc + (a : F) * fl.single (decodeF16 su) * b.xd gb) 0

/-- The lanes of a workgroup, as the number of the group of 32 and the lane in it. -/
def lanes : List (Nat × Nat) := (List.range 256).map fun lid => (lid >>> 5, lid &&& 31)

/-- The orders in which the lanes of a workgroup come to act, between each two barriers. -/
structure Schedule where
  first : List (Nat × Nat)
  reduce : Nat → List (Nat × Nat)
  last : List (Nat × Nat)
  first_perm : first.Perm lanes
  reduce_perm : ∀ k, (reduce k).Perm lanes
  last_perm : last.Perm lanes

/-- The stores into `y` of the workgroup `wg`, with `red` as what the shared memory holds at first. -/
def matvecGroup (s : Schedule) (wg : Nat) (red : Nat × Nat → F) : List (Nat × F) :=
  let row := fun grp => (wg * 8 + grp) % 2 ^ 32
  let acc := fun i : Nat × Nat => if row i.1 < b.outDim then laneAcc fl b (row i.1) i.2 else 0
  let red := runPhase (fun i _ => acc i) s.first red
  let red := treeReduce s.reduce 5 red
  s.last.filterMap fun i => if i.2 = 0 ∧ row i.1 < b.outDim then some (row i.1, red (i.1, 0)) else none

/-- A workgroup that runs: its number, its schedule and what its shared memory holds at first. -/
structure GroupRun (F : Type*) where
  wg : Nat
  schedule : Schedule
  red : Nat × Nat → F

/-- The workgroups that `vkCmdDispatch` starts. -/
def dispatched (outDim : Nat) : Nat := (outDim + 7) % 2 ^ 32 / 8

/-- The buffers and constants of a dispatch, over what the scratch buffers held before. -/
def bindBuffers (bufs : Words × Words) (freshXd : Nat → F) (freshXq : Words) (d : Nat → F)
    (rounded : Nat → Nat → Int) (outDim inDim : Nat) : Bound F where
  wq := bufs.1
  ws := bufs.2
  xd := storeAll freshXd (quantizeRowQ8_0Host d rounded (inDim / 32)).1
  xq := storeAll freshXq (quantizeRowQ8_0Host d rounded (inDim / 32)).2
  outDim := outDim
  inDim := inDim

end Shader

end VgEngine.Vulkan
