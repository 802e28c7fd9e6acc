import Mathlib.Data.List.TakeWhile
import Mathlib.Tactic.Ring

/-! Little-endian words, C strings and the decimal conversions of the C library,
over plain lists of bytes. -/
namespace VgEngine.Bytes

/-- The low `width` bytes of a number, least significant first. -/
def leBytes : Nat → Nat → List UInt8
  | 0, _ => []
  | width + 1, n => UInt8.ofNat n :: leBytes width (n / 256)

def leNat : List UInt8 → Nat
  | [] => 0
  | b :: bs => b.toNat + 256 * leNat bs

@[simp] theorem length_leBytes (width n : Nat) : (leBytes width n).length = width := by
  induction width generalizing n with
  | zero => rfl
  | succ width ih => simp [leBytes, ih]

theorem leNat_lt (bs : List UInt8) : leNat bs < 256 ^ bs.length := by
  induction bs with
  | nil => simp [leNat]
  | cons b bs ih =>
    have hb : b.toNat < 256 := b.toNat_lt
    simp only [leNat, List.length_cons, Nat.pow_succ]
    omega

theorem leNat_leBytes_mod (width n : Nat) : leNat (leBytes width n) = n % 256 ^ width := by
  induction width generalizing n with
  | zero => simp [leBytes, leNat, Nat.mod_one]
  | succ width ih =>
    have hpow : 256 ^ (width + 1) = 256 * 256 ^ width := Nat.pow_succ'
    rw [hpow, Nat.mod_mul, leBytes, leNat, ih, UInt8.toNat_ofNat']

theorem leNat_leBytes (width n : Nat) (h : n < 256 ^ width) : leNat (leBytes width n) = n := by
  rw [leNat_leBytes_mod, Nat.mod_eq_of_lt h]

theorem leBytes_leNat (bs : List UInt8) : leBytes bs.length (leNat bs) = bs := by
  induction bs with
  | nil => rfl
  | cons b bs ih =>
    have hb : b.toNat < 256 := b.toNat_lt
    have hdiv : (b.toNat + 256 * leNat bs) / 256 = leNat bs := by omega
    have hbyte : UInt8.ofNat (b.toNat + 256 * leNat bs) = b := by
      apply UInt8.toNat_inj.1
      rw [UInt8.toNat_ofNat']
      omega
    simp only [List.length_cons, leNat, leBytes, hdiv, hbyte, ih]

theorem testBit_leNat (bs : List UInt8) (k : Nat) {i : Nat} (hi : i < 8) :
    (leNat bs).testBit (8 * k + i) = ((bs[k]?).getD 0).toNat.testBit i := by
  induction bs generalizing k with
  | nil => simp [leNat]
  | cons b bs ih =>
    have hb : b.toNat < 2 ^ 8 := b.toNat_lt
    rw [leNat, Nat.add_comm, show (256 : Nat) = 2 ^ 8 from rfl, Nat.testBit_two_pow_mul_add _ hb]
    cases k with
    | zero => simp [hi]
    | succ k =>
      rw [if_neg (by omega), show 8 * (k + 1) + i - 8 = 8 * k + i by omega, ih]
      simp

/-- What a `char *` denotes: the bytes before the terminator. -/
def cstr (s : List UInt8) : List UInt8 := s.takeWhile (· != 0)

theorem cstr_eq_self {s : List UInt8} (h : ∀ b ∈ s, b ≠ 0) : cstr s = s := by
  rw [cstr, List.takeWhile_eq_self_iff]
  simpa using h

/-- `%llu` -/
def decimal (n : Nat) : List UInt8 := (Nat.toDigits 10 n).map fun c => UInt8.ofNat c.toNat

/-- `%lld` -/
def decimalInt (v : Int) : List UInt8 :=
  if v < 0 then 45 :: decimal v.natAbs else decimal v.natAbs

def isSpace (c : UInt8) : Bool := c == 32 || (9 ≤ c && c ≤ 13)

def isDigit (c : UInt8) : Bool := 48 ≤ c && c ≤ 57

/-- Value of the leading decimal digits; the conversion stops at the first other byte. -/
def digitsValue (s : List UInt8) : Nat :=
  (s.takeWhile isDigit).foldl (fun acc c => 10 * acc + (c.toNat - 48)) 0

/-- `strtoull(s, NULL, 10)`: overflow saturates, a minus sign negates modulo 2^64. -/
def strtoull (s : List UInt8) : Nat :=
  match s.dropWhile isSpace with
  | 45 :: ds => if digitsValue ds < 2 ^ 64 then (2 ^ 64 - digitsValue ds) % 2 ^ 64 else 2 ^ 64 - 1
  | 43 :: ds => min (digitsValue ds) (2 ^ 64 - 1)
  | ds => min (digitsValue ds) (2 ^ 64 - 1)

/-- `strtol(s, NULL, 10)` with a 64-bit `long`. -/
def strtol (s : List UInt8) : Int :=
  match s.dropWhile isSpace with
  | 45 :: ds => -(min (digitsValue ds) (2 ^ 63) : Nat)
  | 43 :: ds => (min (digitsValue ds) (2 ^ 63 - 1) : Nat)
  | ds => (min (digitsValue ds) (2 ^ 63 - 1) : Nat)

example : strtoull (decimal 4096) = 4096 := by decide

end VgEngine.Bytes
