import VgEngine.Quant.Elements
import VgEngine.Lib.BitFields

/-! The standard layouts of the packed blocks, as the positions of the bits of every number in
them, and what the decoders read at those positions. -/
namespace VgEngine.Quant
open VgEngine.Lib VgEngine.Gguf VgEngine.Bytes

/-- A run of `n` bits from the bit `s` of the byte `a` on. -/
def run (a s n : Nat) : List Nat := List.range' (8 * a + s) n

/-- A packed format. An element has a code, and its group a scale and a minimum. Where a format has
none of these, the number has no bits, and its value is a constant. -/
structure Format where
  type : Nat
  size : Nat
  bytes : Nat
  groups : Nat := 1
  group : Nat → Nat := fun _ => 0
  dPos : List Nat
  mPos : List Nat := []
  scalePos : Nat → List Nat := fun _ => []
  minPos : Nat → List Nat := fun _ => []
  codePos : Nat → List Nat
  scaleOf : Nat → Int := fun _ => 1
  minOf : Nat → Int := fun _ => 0
  codeOf : Nat → Int

/-- The numbers of one block, each within the width that the format has for it. -/
structure Contents (f : Format) where
  d : UInt16
  m : UInt16
  scale : Nat → Nat
  min : Nat → Nat
  code : Nat → Nat
  m_lt : m.toNat < 2 ^ f.mPos.length
  scale_lt : ∀ g < f.groups, scale g < 2 ^ (f.scalePos g).length
  min_lt : ∀ g < f.groups, min g < 2 ^ (f.minPos g).length
  code_lt : ∀ e < f.size, code e < 2 ^ (f.codePos e).length

namespace Format

variable (f : Format)

def fields (c : Contents f) : List Field :=
  ⟨f.dPos, c.d.toNat⟩ :: ⟨f.mPos, c.m.toNat⟩ ::
    ((List.range f.groups).map (fun g => ⟨f.scalePos g, c.scale g⟩) ++
      ((List.range f.groups).map (fun g => ⟨f.minPos g, c.min g⟩) ++
        (List.range f.size).map fun e => ⟨f.codePos e, c.code e⟩))

/-- The positions of all numbers of a block. -/
def positions : List Nat :=
  f.dPos ++ (f.mPos ++ ((List.range f.groups).flatMap f.scalePos ++
    ((List.range f.groups).flatMap f.minPos ++ (List.range f.size).flatMap f.codePos)))

/-- The packed blocks, one after the other. -/
def packed (contents : Nat → Contents f) : Ptr :=
  packBlocks f.bytes fun b => f.fields (contents b)

theorem allPositions_fields (c : Contents f) : allPositions (f.fields c) = f.positions := by
  simp [allPositions, fields, positions, List.flatMap_append, List.flatMap_map]

end Format

section Formats

/-- Two's complement in eight bits. -/
def signed8 (n : Nat) : Int := if n < 128 then n else n - 256

def q4_0 : Format where
  type := 2
  size := 32
  bytes := 18
  dPos := run 0 0 16
  codePos e := run (2 + e % 16) (4 * (e / 16)) 4
  codeOf c := c - 8

def q4_1 : Format where
  type := 3
  size := 32
  bytes := 20
  dPos := run 0 0 16
  mPos := run 2 0 16
  codePos e := run (4 + e % 16) (4 * (e / 16)) 4
  minOf _ := 1
  codeOf c := c

/-- The fifth bit of the element `e` is the bit `e` of `qh`. -/
def q5_0 : Format where
  type := 6
  size := 32
  bytes := 22
  dPos := run 0 0 16
  codePos e := run (6 + e % 16) (4 * (e / 16)) 4 ++ run 2 e 1
  codeOf c := c - 16

def q5_1 : Format where
  type := 7
  size := 32
  bytes := 24
  dPos := run 0 0 16
  mPos := run 2 0 16
  codePos e := run (8 + e % 16) (4 * (e / 16)) 4 ++ run 4 e 1
  minOf _ := 1
  codeOf c := c

def q8_0 : Format where
  type := 8
  size := 32
  bytes := 34
  dPos := run 0 0 16
  codePos e := run (2 + e) 0 8
  codeOf := signed8

def q2_K : Format where
  type := 10
  size := 256
  bytes := 84
  groups := 16
  group e := e / 16
  dPos := run 80 0 16
  mPos := run 82 0 16
  scalePos g := run g 0 4
  minPos g := run g 4 4
  codePos e := run (16 + 32 * (e / 128) + e % 32) (2 * (e % 128 / 32)) 2
  scaleOf s := s
  minOf s := -s
  codeOf c := c

def q3_K : Format where
  type := 11
  size := 256
  bytes := 110
  groups := 16
  group e := e / 16
  dPos := run 108 0 16
  scalePos g := run (96 + g % 8) (4 * (g / 8)) 4 ++ run (104 + g % 4) (2 * (g / 4)) 2
  codePos e := run (32 + 32 * (e / 128) + e % 32) (2 * (e % 128 / 32)) 2 ++ run (e % 32) (e / 32) 1
  scaleOf s := s - 32
  codeOf c := c - 4

/-- The six-bit scales of the K-quants: the last four have their high bits in the first bytes. -/
def scaleK4 (o g : Nat) : List Nat :=
  if g < 4 then run (o + g) 0 6 else run (o + g + 4) 0 4 ++ run (o + g - 4) 6 2

def minK4 (o g : Nat) : List Nat :=
  if g < 4 then run (o + g + 4) 0 6 else run (o + g + 4) 4 4 ++ run (o + g) 6 2

def q4_K : Format where
  type := 12
  size := 256
  bytes := 144
  groups := 8
  group e := e / 32
  dPos := run 0 0 16
  mPos := run 2 0 16
  scalePos := scaleK4 4
  minPos := minK4 4
  codePos e := run (16 + 32 * (e / 64) + e % 32) (4 * (e % 64 / 32)) 4
  scaleOf s := s
  minOf s := -s
  codeOf c := c

def q5_K : Format where
  type := 13
  size := 256
  bytes := 176
  groups := 8
  group e := e / 32
  dPos := run 0 0 16
  mPos := run 2 0 16
  scalePos := scaleK4 4
  minPos := minK4 4
  codePos e := run (48 + 32 * (e / 64) + e % 32) (4 * (e % 64 / 32)) 4 ++ run (16 + e % 32) (e / 32) 1
  scaleOf s := s
  minOf s := -s
  codeOf c := c

def q6_K : Format where
  type := 14
  size := 256
  bytes := 210
  groups := 16
  group e := e / 16
  dPos := run 208 0 16
  scalePos g := run (192 + g) 0 8
  codePos e := run (64 * (e / 128) + e % 64) (4 * (e % 128 / 64)) 4 ++
    run (128 + 32 * (e / 128) + e % 32) (2 * (e % 128 / 32)) 2
  scaleOf := signed8
  codeOf c := c - 32

def tq2_0 : Format where
  type := 35
  size := 256
  bytes := 66
  dPos := run 64 0 16
  codePos e := run (32 * (e / 128) + e % 32) (2 * (e % 128 / 32)) 2
  codeOf c := c - 1

def q1_0 : Format where
  type := 41
  size := 128
  bytes := 18
  dPos := run 0 0 16
  codePos e := run (2 + e / 8) (e % 8) 1
  codeOf c := 2 * c - 1

def q2_0 : Format where
  type := 42
  size := 64
  bytes := 18
  dPos := run 0 0 16
  codePos e := run (2 + e / 4) (2 * (e % 4)) 2
  codeOf c := c - 1

/-- The packed formats whose numbers are positional bit fields. -/
def formats : List Format :=
  [q4_0, q4_1, q5_0, q5_1, q8_0, q2_K, q3_K, q4_K, q5_K, q6_K, tq2_0, q1_0, q2_0]

/-- No bit of a block belongs to two numbers. -/
theorem formats_distinct : ∀ f ∈ formats, distinctFrom f.positions 0 = true := by
  decide +kernel

theorem formats_bounded : ∀ f ∈ formats, ∀ p ∈ f.positions, p < 8 * f.bytes := by
  decide +kernel

theorem dPos_length : ∀ f ∈ formats, f.dPos.length = 16 := by
  decide +kernel

theorem Format.positions_nodup {f : Format} (hf : f ∈ formats) : f.positions.Nodup :=
  (nodup_of_distinctFrom (formats_distinct f hf)).1

end Formats

end VgEngine.Quant
