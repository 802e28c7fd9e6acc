import VgEngine.Vulkan.Groups
import VgEngine.Lib.SharedWords
import VgEngine.Quant.Dot

/-! The shaders `matvec_q4_k` and `matvec_q6_k`, which read the blocks of the file as they are. The
32 lanes of a row copy each of its blocks into the shared memory, and each lane takes eight of the
elements from there. -/
namespace VgEngine.Vulkan
open VgEngine.Lib VgEngine.Quant

/-- The two shaders. -/
inductive KQuant
  | q4K
  | q6K

namespace KQuant

/-- The type of `ggml` that `vk_matmul` dispatches to the shader. -/
def kind : KQuant → Nat
  | q4K => 12
  | q6K => 14

def blockBytes : KQuant → Nat
  | q4K => 144
  | q6K => 210

/-- How many accesses a lane makes at most to copy its part of a block. -/
def steps : KQuant → Nat
  | q4K => 2
  | q6K => 14

end KQuant

section Upload

/-- What `vk_matmul` hands to the cache: the bytes of the tensor, and for Q6_K zeros up to a whole
word. -/
def uploadBytes (q : KQuant) (wdata : Ptr) (wbytes : Nat) (fresh : Ptr) : Ptr := fun i =>
  if i < wbytes then wdata i
  else
    match q with
    | .q4K => fresh i
    | .q6K => if i < (wbytes + 3) / 4 * 4 then 0 else fresh i

def uploadWords (bytes : Ptr) : Words := fun i => bytes.u32 (4 * i)

end Upload

section Shader

/-- The shared block of a workgroup: the words of each group of 32 lanes. -/
abbrev Shared := Nat × Nat → UInt32

/-- `pb` -/
def pb (sblk : Nat → UInt32) (i : Nat) : UInt32 :=
  (sblk (i >>> 2) >>> UInt32.ofNat ((i &&& 3) * 8)) &&& 0xFF

/-- `sbyte` -/
def sbyte (sblk : Nat → UInt32) (i : Nat) : Int :=
  let v : Int := (pb sblk i).toNat
  if v < 128 then v else v - 256

/-- The loop of a lane of `matvec_q4_k` over the words of the block `mb`. -/
def loadQ4_K (w : Words) (base mb : Nat) (i : Nat × Nat) : List (Access (Nat × Nat)) :=
  (strided 36 32 i.2).map fun jw =>
    .store (i.1, jw) (w (((base >>> 2) + mb * 36 + jw) % 2 ^ 32))

/-- The loop of a lane of `matvec_q6_k` over the bytes of the block `mb`. -/
def loadQ6_K (w : Words) (base mb : Nat) (i : Nat × Nat) : List (Access (Nat × Nat)) :=
  let bbase := (base + mb * 210) % 2 ^ 32
  (strided 210 32 i.2).flatMap fun j =>
    let word := w (((bbase + j) % 2 ^ 32) >>> 2)
    let src := UInt32.ofNat ((((bbase + j) % 2 ^ 32) &&& 3) * 8)
    let dst := UInt32.ofNat ((j &&& 3) * 8)
    [.atomicAnd (i.1, j >>> 2) (~~~((0xFF : UInt32) <<< dst)),
      .atomicOr (i.1, j >>> 2) (((word >>> src) &&& 0xFF) <<< dst)]

def load : KQuant → Words → Nat → Nat → Nat × Nat → List (Access (Nat × Nat))
  | .q4K => loadQ4_K
  | .q6K => loadQ6_K

variable {F : Type*} [Sub F] [Mul F] [IntCast F] (fl : Floats F)

/-- The elements that a lane of `matvec_q4_k` takes from a block, each with its number in the block. -/
def takeQ4_K (sblk : Nat → UInt32) (lane : Nat) : List (Nat × F) :=
  let d := fl.single (decodeF16 (pb sblk 0 ||| pb sblk 1 <<< (8 : UInt32)))
  let dmin := fl.single (decodeF16 (pb sblk 2 ||| pb sblk 3 <<< (8 : UInt32)))
  (List.range 8).map fun g =>
    let sc := if g < 4 then pb sblk (4 + g) &&& 63
      else (pb sblk (8 + g) &&& 0xF) ||| (pb sblk g >>> (6 : UInt32)) <<< (4 : UInt32)
    let mn := if g < 4 then pb sblk (8 + g) &&& 63
      else (pb sblk (8 + g) >>> (4 : UInt32)) |||
        (pb sblk (4 + g) >>> (6 : UInt32)) <<< (4 : UInt32)
    let qbyte := pb sblk (16 + 32 * (g >>> 1) + lane)
    let nib := if g &&& 1 = 0 then qbyte &&& 0xF else qbyte >>> (4 : UInt32)
    (g * 32 + lane,
      d * ofUnsigned sc.toNat * ofUnsigned nib.toNat - dmin * ofUnsigned mn.toNat)

/-- The elements that a lane of `matvec_q6_k` takes from a block. -/
def takeQ6_K (sblk : Nat → UInt32) (lane : Nat) : List (Nat × F) :=
  let d := fl.single (decodeF16 (pb sblk 208 ||| pb sblk 209 <<< (8 : UInt32)))
  (List.range 2).flatMap fun hp => (List.range 4).map fun sub =>
    let qlIdx := hp * 64 + lane + (sub &&& 1) * 32
    let qhIdx := hp * 32 + lane
    let nibshift : UInt32 := if sub &&& 2 ≠ 0 then 4 else 0
    let qlbeta := (pb sblk qlIdx >>> nibshift) &&& 0xF
    let hi := (pb sblk (128 + qhIdx) >>> UInt32.ofNat (sub * 2)) &&& 3
    let val : Int := ((qlbeta ||| hi <<< (4 : UInt32)).toNat : Int) - 32
    let sc := sbyte sblk (192 + hp * 8 + (lane >>> 4) + sub * 2)
    (hp * 128 + sub * 32 + lane, d * (sc : F) * (val : F))

def take : KQuant → (Nat → UInt32) → Nat → List (Nat × F)
  | .q4K => takeQ4_K fl
  | .q6K => takeQ6_K fl

/-- The bindings and the push constants of a dispatch. -/
structure KBound (F : Type*) where
  w : Words
  x : Nat → F
  outDim : Nat
  inDim : Nat

/-- A workgroup that runs, with the turns that its lanes take in the copy of each block; each lane has
enough of them to get to the barrier. -/
structure CopyRun (steps : Nat) (F : Type*) extends GroupRun F where
  sblk : Shared
  copy : Nat → List (Nat × Nat)
  copy_lanes : ∀ mb, ∀ i ∈ copy mb, i ∈ lanes
  copy_turns : ∀ mb, ∀ i ∈ lanes, steps ≤ (copy mb).count i

def CopyRun.row {steps : Nat} (r : CopyRun steps F) (grp : Nat) : Nat := (r.wg * 8 + grp) % 2 ^ 32

variable (q : KQuant) (b : KBound F) (r : CopyRun q.steps F)

/-- What a lane does between the barriers around the copy of the block `mb`. -/
def copyBlock (mb : Nat) (i : Nat × Nat) : List (Access (Nat × Nat)) :=
  let rowBytes := b.inDim / 256 * q.blockBytes % 2 ^ 32
  let base := r.row i.1 * rowBytes % 2 ^ 32
  if r.row i.1 < b.outDim then load q b.w base mb i else []

/-- The shared memory after the copies of the first `n` blocks. -/
def sharedAfter : Nat → Shared
  | 0 => r.sblk
  | mb + 1 => runTurns Access.apply (copyBlock q b r mb) (r.copy mb) (sharedAfter mb)

/-- The elements of the row that a lane takes, block by block, with the place of each in `x`. -/
def laneTakes (i : Nat × Nat) : List (Nat × F) :=
  (List.range (b.inDim / 256)).flatMap fun mb =>
    (take fl q (fun j => sharedAfter q b r (mb + 1) (i.1, j)) i.2).map fun t =>
      ((mb * 256 + t.1) % 2 ^ 32, t.2)

variable [Zero F] [Add F]

/-- `acc` of a lane at the end of its loop. -/
def laneSum (i : Nat × Nat) : F :=
  if r.row i.1 < b.outDim then
    (laneTakes fl q b r i).foldl (fun acc t => acc + t.2 * b.x t.1) 0
  else 0

/-- The stores of a workgroup into `y`. -/
def matvecKGroup : List (Nat × F) :=
  groupStores b.outDim (laneSum fl q b r) r.schedule r.wg r.red

end Shader

end VgEngine.Vulkan
