import VgEngine.Lib.Bytes
import VgEngine.Status

/-! The readers of `gguf.c`: raw words, strings, scalar values and the text form
of arrays. `none` is the failure of a reader (`0` or `NULL` in the source). -/
namespace VgEngine.Gguf
open Bytes

/-- What the parser needs of the C library: whether its n-th allocation succeeds,
and how `printf` renders a float (from its bits) under `%.17g`. -/
structure Libc where
  mallocOk : Nat → Bool
  formatF32 : Nat → List UInt8
  formatF64 : Nat → List UInt8

/-- The index file handle: what is left to read, `tell64`, and the number of
allocations requested so far. -/
structure Cursor where
  rest : List UInt8
  pos : Nat
  mallocs : Nat
deriving DecidableEq, Repr

def rd (n : Nat) (c : Cursor) : Option (List UInt8 × Cursor) :=
  if n ≤ c.rest.length then
    some (c.rest.take n, { c with rest := c.rest.drop n, pos := c.pos + n })
  else none

def u32 (c : Cursor) : Option (Nat × Cursor) := (rd 4 c).map fun (b, c) => (leNat b, c)

def u64 (c : Cursor) : Option (Nat × Cursor) := (rd 8 c).map fun (b, c) => (leNat b, c)

variable (env : Libc)

def malloc (c : Cursor) : Option Cursor :=
  if env.mallocOk c.mallocs then some { c with mallocs := c.mallocs + 1 } else none

def readString (c : Cursor) : Option (List UInt8 × Cursor) := do
  let (n, c) ← u64 c
  if 2 ^ 20 < n then none
  else
    let c ← malloc env c
    let (s, c) ← rd n c
    some (cstr s, c)

/-- Two's complement value of a `bits`-wide word. -/
def toSigned (bits n : Nat) : Int := if n < 2 ^ (bits - 1) then n else (n : Int) - 2 ^ bits

/-- Read a fixed-width word and duplicate its rendered text. -/
def readNumber (width : Nat) (format : Nat → List UInt8) (c : Cursor) :
    Option (List UInt8 × Cursor) := do
  let (b, c) ← rd width c
  let c ← malloc env c
  some (format (leNat b), c)

def boolText (b : Nat) : List UInt8 :=
  if b = 0 then [102, 97, 108, 115, 101] else [116, 114, 117, 101]

/-- `while (need >= cap) ...`: 58 doublings take any capacity past `SIZE_MAX / 2`. -/
def growTo : Nat → Nat → Nat → Cursor → Option (Nat × Cursor)
  | 0, _, _, _ => none
  | fuel + 1, need, cap, c =>
    if need < cap then some (cap, c)
    else if sizeMax / 2 < cap then none
    else do
      let c ← malloc env c
      growTo fuel need (cap * 2) c

def escape (s : List UInt8) : List UInt8 :=
  s.flatMap fun c => if c = 34 ∨ c = 92 then [92, c] else [c]

/-- One item as it is appended to the text, its separator included. -/
def itemText (first quoted : Bool) (text : List UInt8) : List UInt8 :=
  (if first then [] else [44]) ++ if quoted then 34 :: escape text ++ [34] else text

/-- `need` for one item. Escapes are not part of it, as in the source. -/
def itemNeed (len : Nat) (first quoted : Bool) (text : List UInt8) : Nat :=
  len + (if first then 0 else 1) + (if quoted then 2 else 0) + text.length + 1

/-- The item loop of `read_array_text`, over the items still to read. The writes
into `out` are not bounds-checked, here or in the source: only `growTo` sees `cap`. -/
def arrayItems (item : Cursor → Option (List UInt8 × Cursor)) (quoted : Bool) :
    Nat → Bool → List UInt8 → Nat → Cursor → Option (List UInt8 × Cursor)
  | 0, _, out, _, c => some (out, c)
  | n + 1, first, out, cap, c => do
    let (text, c) ← item c
    let (cap, c) ← growTo env 64 (itemNeed out.length first quoted text) cap c
    arrayItems item quoted n false (out ++ itemText first quoted text) cap c

/-- `read_array_text`, given the reader of the items. -/
def readArrayText (item : Nat → Cursor → Option (List UInt8 × Cursor)) (c : Cursor) :
    Option (List UInt8 × Cursor) := do
  let (type, c) ← u32 c
  let (n, c) ← u64 c
  if 2 ^ 20 < n then none
  else
    let c ← malloc env c
    let (out, c) ← arrayItems env (item type) (type == 8) n true [91] 64 c
    some (out ++ [93], c)

/-- `read_scalar_value`. The fuel bounds the nesting of arrays; each level takes
twelve bytes of the file, so its length always suffices. -/
def readScalarValue : Nat → Nat → Cursor → Option (List UInt8 × Cursor)
  | 0, _, _ => none
  | fuel + 1, type, c =>
    match type with
    | 0 => readNumber env 1 decimal c
    | 1 => readNumber env 1 (fun n => decimalInt (toSigned 8 n)) c
    | 2 => readNumber env 2 decimal c
    | 3 => readNumber env 2 (fun n => decimalInt (toSigned 16 n)) c
    | 4 => readNumber env 4 decimal c
    | 5 => readNumber env 4 (fun n => decimalInt (toSigned 32 n)) c
    | 6 => readNumber env 4 env.formatF32 c
    | 7 => readNumber env 1 boolText c
    | 8 => readString env c
    | 10 => readNumber env 8 decimal c
    | 11 => readNumber env 8 (fun n => decimalInt (toSigned 64 n)) c
    | 12 => readNumber env 8 env.formatF64 c
    | 9 => readArrayText env (readScalarValue fuel) c
    | _ => none

end VgEngine.Gguf
