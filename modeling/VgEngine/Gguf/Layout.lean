import VgEngine.Gguf.Index
import Mathlib.Tactic.Positivity
import Mathlib.Tactic.Zify

/-! The GGUF file format on its own: typed metadata values, tensor declarations
and the bytes they are laid out as. Nothing here refers to the parser. -/
namespace VgEngine.Gguf
open Bytes

inductive IntType where
  | uint8 | int8 | uint16 | int16 | uint32 | int32 | uint64 | int64
deriving DecidableEq, Repr

namespace IntType

def code : IntType → Nat
  | uint8 => 0 | int8 => 1 | uint16 => 2 | int16 => 3
  | uint32 => 4 | int32 => 5 | uint64 => 10 | int64 => 11

def width : IntType → Nat
  | uint8 | int8 => 1
  | uint16 | int16 => 2
  | uint32 | int32 => 4
  | uint64 | int64 => 8

def signed : IntType → Bool
  | int8 | int16 | int32 | int64 => true
  | uint8 | uint16 | uint32 | uint64 => false

/-- The values a type can hold. -/
def Fits (t : IntType) (v : Int) : Prop :=
  if t.signed then -(2 ^ (8 * t.width - 1) : Int) ≤ v ∧ v < 2 ^ (8 * t.width - 1)
  else 0 ≤ v ∧ v < 2 ^ (8 * t.width)

/-- The stored word of a value, in two's complement. -/
def word (t : IntType) (v : Int) : Nat := (v % 2 ^ (8 * t.width)).toNat

/-- The value of a stored word. -/
def value (t : IntType) (n : Nat) : Int := if t.signed then toSigned (8 * t.width) n else n

theorem width_pos (t : IntType) : 0 < t.width := by
  cases t <;> decide

theorem word_lt (t : IntType) (v : Int) : t.word v < 2 ^ (8 * t.width) := by
  have hlt := Int.emod_lt_of_pos v (show (0 : Int) < 2 ^ (8 * t.width) by positivity)
  unfold word
  zify
  rw [Int.toNat_of_nonneg (Int.emod_nonneg _ (by positivity))]
  exact hlt

theorem word_value (t : IntType) {n : Nat} (h : n < 2 ^ (8 * t.width)) : t.word (t.value n) = n := by
  have hn : (n : Int) % 2 ^ (8 * t.width) = n :=
    Int.emod_eq_of_lt (by positivity) (by exact_mod_cast h)
  unfold word value toSigned
  split
  · split
    · simp [hn]
    · simp [Int.sub_emod_right, hn]
  · simp [hn]

private theorem two_pow_half (t : IntType) : (2 : Int) ^ (8 * t.width) = 2 * 2 ^ (8 * t.width - 1) := by
  have hpos := t.width_pos
  rw [← pow_succ', Nat.sub_add_cancel (by omega)]

theorem value_word (t : IntType) {v : Int} (h : t.Fits v) : t.value (t.word v) = v := by
  have hhalf := t.two_pow_half
  have hword : ((t.word v : Nat) : Int) = v % 2 ^ (8 * t.width) := by
    unfold word
    rw [Int.toNat_of_nonneg (Int.emod_nonneg _ (by positivity))]
  have hcast : t.word v < 2 ^ (8 * t.width - 1) ↔
      ((t.word v : Nat) : Int) < 2 ^ (8 * t.width - 1) := by
    exact_mod_cast Iff.rfl
  unfold value toSigned
  unfold Fits at h
  by_cases hs : t.signed
  · simp only [hs, if_true] at h ⊢
    by_cases hv : 0 ≤ v
    · have hmod : v % 2 ^ (8 * t.width) = v := Int.emod_eq_of_lt hv (by omega)
      rw [if_pos (by rw [hcast, hword, hmod]; exact h.2), hword, hmod]
    · have hmod : v % 2 ^ (8 * t.width) = v + 2 ^ (8 * t.width) := by
        rw [← Int.add_emod_right, Int.emod_eq_of_lt (by omega) (by omega)]
      rw [if_neg (by rw [hcast, hword, hmod]; omega), hword, hmod]
      omega
  · simp only [hs] at h ⊢
    simp only [Bool.false_eq_true, if_false] at h ⊢
    rw [hword, Int.emod_eq_of_lt h.1 h.2]

theorem fits_value (t : IntType) {n : Nat} (h : n < 2 ^ (8 * t.width)) : t.Fits (t.value n) := by
  have hhalf := t.two_pow_half
  have hn : (n : Int) < 2 ^ (8 * t.width) := by exact_mod_cast h
  have hcast : n < 2 ^ (8 * t.width - 1) ↔ (n : Int) < 2 ^ (8 * t.width - 1) := by
    exact_mod_cast Iff.rfl
  unfold Fits value toSigned
  by_cases hs : t.signed
  · simp only [hs, if_true]
    split
    · rename_i hlow
      rw [hcast] at hlow
      omega
    · rename_i hhigh
      rw [hcast] at hhigh
      omega
  · simp only [hs]
    simp only [Bool.false_eq_true, if_false]
    omega

end IntType

/-- A metadata value. Floats are kept as their bits, a bool as its stored byte. -/
inductive MetaValue where
  | int (t : IntType) (v : Int)
  | float32 (bits : Nat)
  | float64 (bits : Nat)
  | bool (raw : UInt8)
  | string (s : List UInt8)
  | array (elem : Nat) (items : List MetaValue)

def MetaValue.typeCode : MetaValue → Nat
  | .int t _ => t.code
  | .float32 _ => 6
  | .bool _ => 7
  | .string _ => 8
  | .array _ _ => 9
  | .float64 _ => 12

def encodeString (s : List UInt8) : List UInt8 := leBytes 8 s.length ++ s

mutual
def MetaValue.encode : MetaValue → List UInt8
  | .int t v => leBytes t.width (t.word v)
  | .float32 bits => leBytes 4 bits
  | .float64 bits => leBytes 8 bits
  | .bool raw => [raw]
  | .string s => encodeString s
  | .array elem items => leBytes 4 elem ++ leBytes 8 items.length ++ encodeItems items
def encodeItems : List MetaValue → List UInt8
  | [] => []
  | v :: vs => v.encode ++ encodeItems vs
end

mutual
/-- What the format and the limits of the parser admit: a string has at most 2^20
bytes, an array at most 2^20 items, all of the declared type. -/
def MetaValue.Valid : MetaValue → Prop
  | .int t v => t.Fits v
  | .float32 bits => bits < 2 ^ 32
  | .float64 bits => bits < 2 ^ 64
  | .bool _ => True
  | .string s => s.length ≤ 2 ^ 20
  | .array elem items => elem < 2 ^ 32 ∧ items.length ≤ 2 ^ 20 ∧ ValidItems elem items
def ValidItems (elem : Nat) : List MetaValue → Prop
  | [] => True
  | v :: vs => v.typeCode = elem ∧ v.Valid ∧ ValidItems elem vs
end

mutual
/-- Text of a value; `esc` is applied to the strings of an array, which are quoted. -/
def MetaValue.text (env : Libc) (esc : List UInt8 → List UInt8) : MetaValue → List UInt8
  | .int _ v => decimalInt v
  | .float32 bits => env.formatF32 bits
  | .float64 bits => env.formatF64 bits
  | .bool raw => boolText raw.toNat
  | .string s => cstr s
  | .array elem items => 91 :: itemsText env esc (elem == 8) true items ++ [93]
def itemsText (env : Libc) (esc : List UInt8 → List UInt8) (quoted first : Bool) :
    List MetaValue → List UInt8
  | [] => []
  | v :: vs =>
    ((if first then [] else [44]) ++
      if quoted then 34 :: esc (v.text env esc) ++ [34] else v.text env esc) ++
        itemsText env esc quoted false vs
end

/-- One declared tensor. -/
structure TensorDecl where
  name : List UInt8
  dims : List Nat
  type : Nat
  offset : Nat

def TensorDecl.encode (d : TensorDecl) : List UInt8 :=
  encodeString d.name ++ (leBytes 4 d.dims.length ++
    (d.dims.flatMap (leBytes 8) ++ (leBytes 4 d.type ++ leBytes 8 d.offset)))

/-- The index part of a file: everything before the padding and the payloads. -/
structure IndexLayout where
  version : Nat
  metas : List (List UInt8 × MetaValue)
  tensors : List TensorDecl

def encodeMeta (m : List UInt8 × MetaValue) : List UInt8 :=
  encodeString m.1 ++ (leBytes 4 m.2.typeCode ++ m.2.encode)

def IndexLayout.encode (L : IndexLayout) : List UInt8 :=
  leBytes 4 0x46554747 ++ (leBytes 4 L.version ++
    (leBytes 8 L.tensors.length ++ (leBytes 8 L.metas.length ++
      (L.metas.flatMap encodeMeta ++ L.tensors.flatMap TensorDecl.encode))))

/-- The byte size the geometry table gives the tensor. -/
def TensorDecl.nbytes (d : TensorDecl) : Nat :=
  match tensorBytes d.type d.dims with
  | .ok n => n
  | .error _ => 0

/-- The record the tensor table should hold for a declaration. -/
def TensorDecl.record (d : TensorDecl) : GgufTensor where
  name := some (cstr d.name)
  nDims := d.dims.length
  dims := d.dims
  ggmlType := d.type
  dataOffset := d.offset
  nbytes := d.nbytes

structure TensorDecl.Valid (d : TensorDecl) : Prop where
  name : d.name.length ≤ 2 ^ 20
  rank : d.dims.length ≤ 4
  dims : ∀ n ∈ d.dims, 0 < n ∧ n < 2 ^ 64
  type : d.type < 2 ^ 32
  offset : d.offset < 2 ^ 64
  bytes : tensorBytes d.type d.dims = .ok d.nbytes

structure IndexLayout.Valid (L : IndexLayout) : Prop where
  version : L.version = 2 ∨ L.version = 3
  metaCount : L.metas.length ≤ 2 ^ 24
  tensorCount : L.tensors.length ≤ 2 ^ 24
  metas : ∀ m ∈ L.metas, m.1.length ≤ 2 ^ 20 ∧ m.2.Valid
  tensors : ∀ d ∈ L.tensors, d.Valid

/-- The metadata as text. -/
def IndexLayout.metaText (env : Libc) (esc : List UInt8 → List UInt8) (L : IndexLayout) :
    List (List UInt8 × List UInt8) :=
  L.metas.map fun m => (cstr m.1, m.2.text env esc)

end VgEngine.Gguf
