import VgEngine.Lib.Bytes
import VgEngine.Status
import Mathlib.Algebra.Field.Rat
import Mathlib.Data.UInt

/-! The packed blocks of `quant.c` and the conversion of halves. A pointer is the memory from
its target on. -/
namespace VgEngine.Quant
open VgEngine.Bytes

abbrev Ptr := Nat → UInt8

/-- `p + n` -/
def Ptr.plus (p : Ptr) (n : Nat) : Ptr := fun i => p (n + i)

def Ptr.u16 (p : Ptr) (o : Nat) : UInt16 := UInt16.ofNat (leNat [p o, p (o + 1)])

def Ptr.u32 (p : Ptr) (o : Nat) : UInt32 :=
  UInt32.ofNat (leNat [p o, p (o + 1), p (o + 2), p (o + 3)])

def Ptr.u64 (p : Ptr) (o : Nat) : UInt64 :=
  UInt64.ofNat (leNat ((List.range 8).map fun k => p (o + k)))

/-- A byte read as `int8_t`. -/
def int8 (b : UInt8) : Int := b.toInt8.toInt

/-- What the bits of floats stand for: a `float`, and a `double` that is converted to one. -/
structure Floats (F : Type*) where
  single : UInt32 → F
  double : UInt64 → F

/-- The finite floats as rational numbers. -/
def exactFloats : Floats ℚ where
  single bits :=
    let sign : ℚ := if bits.toNat.testBit 31 then -1 else 1
    let exp : Nat := bits.toNat / 2 ^ 23 % 2 ^ 8
    let mant : Nat := bits.toNat % 2 ^ 23
    if exp = 0 then sign * mant / 2 ^ 149 else sign * (2 ^ 23 + mant) * 2 ^ exp / 2 ^ 150
  double bits :=
    let sign : ℚ := if bits.toNat.testBit 63 then -1 else 1
    let exp : Nat := bits.toNat / 2 ^ 52 % 2 ^ 11
    let mant : Nat := bits.toNat % 2 ^ 52
    if exp = 0 then sign * mant / 2 ^ 1074 else sign * (2 ^ 52 + mant) * 2 ^ exp / 2 ^ 1075

/-- The conversion of an unsigned integer to `float`. -/
def ofUnsigned {F : Type*} [IntCast F] (n : Nat) : F := ((n : Int) : F)

section Half

/-- `while (!(mant & 0x400u)) { mant <<= 1u; --e; }` -/
def normalize : Nat → UInt32 → UInt32 → UInt32 × UInt32
  | 0, mant, e => (mant, e)
  | fuel + 1, mant, e =>
    if mant &&& 0x400 = 0 then normalize fuel (mant <<< 1) (e - 1) else (mant, e)

/-- The bits that `vg_half_to_float` assembles. The significand of a subnormal has its highest
bit among the low ten, so ten shifts bring it up. -/
def halfBits (h : UInt16) : UInt32 :=
  let sign := (h &&& 0x8000).toUInt32 <<< 16
  let exp := ((h >>> 10) &&& 0x1F).toUInt32
  let mant := (h &&& 0x3FF).toUInt32
  if exp = 0 then
    if mant = 0 then sign
    else
      let normal := normalize 10 mant (127 - 15 + 1)
      sign ||| normal.2 <<< (23 : UInt32) ||| (normal.1 &&& 0x3FF) <<< (13 : UInt32)
  else if exp = 31 then sign ||| 0x7F800000 ||| mant <<< (13 : UInt32)
  else sign ||| (exp + 112) <<< (23 : UInt32) ||| mant <<< (13 : UInt32)

/-- The loop has ended within the ten passes. -/
theorem normalize_done : ∀ mant < 0x400, mant ≠ 0 →
    (normalize 10 (UInt32.ofNat mant) 113).1 &&& 0x400 ≠ 0 := by
  decide +kernel

variable {F : Type*} (fl : Floats F)

def vgHalfToFloat (h : UInt16) : F := fl.single (halfBits h)

def bf16ToFloat (h : UInt16) : F := fl.single (h.toUInt32 <<< 16)

end Half

section Blocks

structure BlockQ4_0 where
  d : UInt16
  qs : Ptr

structure BlockQ4_1 where
  d : UInt16
  m : UInt16
  qs : Ptr

structure BlockQ5_0 where
  d : UInt16
  qh : Ptr
  qs : Ptr

structure BlockQ5_1 where
  d : UInt16
  m : UInt16
  qh : Ptr
  qs : Ptr

structure BlockQ8_0 where
  d : UInt16
  qs : Ptr

structure BlockQ2_K where
  scales : Ptr
  qs : Ptr
  d : UInt16
  dmin : UInt16

structure BlockQ3_K where
  hmask : Ptr
  qs : Ptr
  scales : Ptr
  d : UInt16

structure BlockQ4_K where
  d : UInt16
  dmin : UInt16
  scales : Ptr
  qs : Ptr

structure BlockQ5_K where
  d : UInt16
  dmin : UInt16
  scales : Ptr
  qh : Ptr
  qs : Ptr

structure BlockQ6_K where
  ql : Ptr
  qh : Ptr
  scales : Ptr
  d : UInt16

structure BlockQ8_K where
  d : UInt32
  qs : Ptr

structure BlockTq1_0 where
  qs : Ptr
  qh : Ptr
  d : UInt16

structure BlockTq2_0 where
  qs : Ptr
  d : UInt16

/-- The 18 bytes of `block_q1_0`, of `block_q2_0` and of `block_iq4_nl` are laid out alike. -/
abbrev BlockQ1_0 := BlockQ4_0
abbrev BlockQ2_0 := BlockQ4_0
abbrev BlockIq4Nl := BlockQ4_0

def blockQ4_0 (p : Ptr) : BlockQ4_0 := ⟨p.u16 0, p.plus 2⟩
def blockQ4_1 (p : Ptr) : BlockQ4_1 := ⟨p.u16 0, p.u16 2, p.plus 4⟩
def blockQ5_0 (p : Ptr) : BlockQ5_0 := ⟨p.u16 0, p.plus 2, p.plus 6⟩
def blockQ5_1 (p : Ptr) : BlockQ5_1 := ⟨p.u16 0, p.u16 2, p.plus 4, p.plus 8⟩
def blockQ8_0 (p : Ptr) : BlockQ8_0 := ⟨p.u16 0, p.plus 2⟩
def blockIq4Nl (p : Ptr) : BlockIq4Nl := ⟨p.u16 0, p.plus 2⟩
def blockQ2_K (p : Ptr) : BlockQ2_K := ⟨p, p.plus 16, p.u16 80, p.u16 82⟩
def blockQ3_K (p : Ptr) : BlockQ3_K := ⟨p, p.plus 32, p.plus 96, p.u16 108⟩
def blockQ4_K (p : Ptr) : BlockQ4_K := ⟨p.u16 0, p.u16 2, p.plus 4, p.plus 16⟩
def blockQ5_K (p : Ptr) : BlockQ5_K := ⟨p.u16 0, p.u16 2, p.plus 4, p.plus 16, p.plus 48⟩
def blockQ6_K (p : Ptr) : BlockQ6_K := ⟨p, p.plus 128, p.plus 192, p.u16 208⟩
def blockQ8_K (p : Ptr) : BlockQ8_K := ⟨p.u32 0, p.plus 4⟩
def blockTq1_0 (p : Ptr) : BlockTq1_0 := ⟨p, p.plus 48, p.u16 52⟩
def blockTq2_0 (p : Ptr) : BlockTq2_0 := ⟨p, p.u16 64⟩
def blockQ1_0 (p : Ptr) : BlockQ1_0 := ⟨p.u16 0, p.plus 2⟩
def blockQ2_0 (p : Ptr) : BlockQ2_0 := ⟨p.u16 0, p.plus 2⟩

end Blocks

@[simp] theorem Ptr.plus_zero (p : Ptr) : p.plus 0 = p := by
  funext i
  rw [Ptr.plus, Nat.zero_add]

theorem Ptr.plus_plus (p : Ptr) (m n : Nat) : (p.plus m).plus n = p.plus (m + n) := by
  funext i
  simp only [Ptr.plus, Nat.add_assoc]

end VgEngine.Quant
