import VgEngine.Quant.Layout
import VgEngine.Gguf.Quant
import VgEngine.Lib.Stores

/-! The decoders of `quant.c`. Each is the list of its stores into `y`, in order. The operations on
floats are those of `F`, and nothing is supposed of them. -/
namespace VgEngine.Quant
open VgEngine.Lib VgEngine.Gguf

variable {F : Type*} [Add F] [Sub F] [Neg F] [Mul F] [IntCast F] (fl : Floats F)

section KQuants

/-- `get_scale_min_k4` -/
def getScaleMinK4 (j : Nat) (q : Ptr) : Nat × Nat :=
  if j < 4 then ((q j).toNat &&& 63, (q (j + 4)).toNat &&& 63)
  else (((q (j + 4)).toNat &&& 0x0F) ||| ((q (j - 4)).toNat >>> 6) <<< 4,
    ((q (j + 4)).toNat >>> 4) ||| ((q j).toNat >>> 6) <<< 4)

def deqQ2_K (src : Ptr) (nb : Nat) : List (Nat × F) :=
  emitted <| (List.range nb).flatMap fun b =>
    let q := blockQ2_K (src.plus (b * 84))
    let d := vgHalfToFloat fl q.d
    let mn := vgHalfToFloat fl q.dmin
    (List.range 2).flatMap fun n =>
      let qs := q.qs.plus (n * 32)
      (List.range 4).flatMap fun j =>
        let shift := 2 * j
        let is := n * 8 + 2 * j
        let sc := (q.scales is).toNat
        let dl := d * ofUnsigned (sc &&& 0x0F)
        let ml := mn * ofUnsigned (sc >>> 4)
        let sc' := (q.scales (is + 1)).toNat
        let dl' := d * ofUnsigned (sc' &&& 0x0F)
        let ml' := mn * ofUnsigned (sc' >>> 4)
        (List.range 16).map (fun l =>
            dl * ofUnsigned (((qs l).toNat >>> shift) &&& 3) - ml) ++
          (List.range 16).map fun l =>
            dl' * ofUnsigned (((qs (l + 16)).toNat >>> shift) &&& 3) - ml'

/-- The sixteen signed scales that `deq_q3_k` unpacks from twelve bytes, a word at a time. -/
def scalesQ3_K (scales : Ptr) (i : Nat) : Int :=
  let kmask1 : UInt32 := 0x03030303
  let kmask2 : UInt32 := 0x0F0F0F0F
  let aux0 := scales.u32 0
  let aux1 := scales.u32 4
  let tmp := scales.u32 8
  let aux : UInt32 :=
    if i / 4 = 0 then (aux0 &&& kmask2) ||| ((tmp >>> 0) &&& kmask1) <<< (4 : UInt32)
    else if i / 4 = 1 then (aux1 &&& kmask2) ||| ((tmp >>> 2) &&& kmask1) <<< (4 : UInt32)
    else if i / 4 = 2 then
      ((aux0 >>> 4) &&& kmask2) ||| ((tmp >>> 4) &&& kmask1) <<< (4 : UInt32)
    else ((aux1 >>> 4) &&& kmask2) ||| ((tmp >>> 6) &&& kmask1) <<< (4 : UInt32)
  int8 (UInt8.ofNat (aux.toNat >>> (8 * (i % 4)))) - 32

def deqQ3_K (src : Ptr) (nb : Nat) : List (Nat × F) :=
  emitted <| (List.range nb).flatMap fun b =>
    let q := blockQ3_K (src.plus (b * 110))
    let dAll := vgHalfToFloat fl q.d
    let scales := scalesQ3_K q.scales
    let hm := q.hmask
    (List.range 2).flatMap fun n =>
      let qs := q.qs.plus (n * 32)
      (List.range 4).flatMap fun j =>
        let shift := 2 * j
        let is := n * 8 + 2 * j
        let m := 1 <<< (n * 4 + j)
        let dl := dAll * (scales is : F)
        let dl2 := dAll * (scales (is + 1) : F)
        (List.range 16).map (fun l =>
            let v : Int := (((qs l).toNat >>> shift) &&& 3 : Nat) -
              (if (hm l).toNat &&& m ≠ 0 then 0 else 4)
            dl * (v : F)) ++
          (List.range 16).map fun l =>
            let v : Int := (((qs (l + 16)).toNat >>> shift) &&& 3 : Nat) -
              (if (hm (l + 16)).toNat &&& m ≠ 0 then 0 else 4)
            dl2 * (v : F)

def deqQ4_K (src : Ptr) (nb : Nat) : List (Nat × F) :=
  emitted <| (List.range nb).flatMap fun b =>
    let q := blockQ4_K (src.plus (b * 144))
    let d := vgHalfToFloat fl q.d
    let mn := vgHalfToFloat fl q.dmin
    (List.range 4).flatMap fun j =>
      let qs := q.qs.plus (j * 32)
      let is := 2 * j
      let d1 := d * ofUnsigned (getScaleMinK4 (is + 0) q.scales).1
      let m1 := mn * ofUnsigned (getScaleMinK4 (is + 0) q.scales).2
      let d2 := d * ofUnsigned (getScaleMinK4 (is + 1) q.scales).1
      let m2 := mn * ofUnsigned (getScaleMinK4 (is + 1) q.scales).2
      (List.range 32).map (fun l => d1 * ofUnsigned ((qs l).toNat &&& 0x0F) - m1) ++
        (List.range 32).map fun l => d2 * ofUnsigned ((qs l).toNat >>> 4) - m2

def deqQ5_K (src : Ptr) (nb : Nat) : List (Nat × F) :=
  emitted <| (List.range nb).flatMap fun b =>
    let q := blockQ5_K (src.plus (b * 176))
    let d := vgHalfToFloat fl q.d
    let mn := vgHalfToFloat fl q.dmin
    let qh := q.qh
    (List.range 4).flatMap fun j =>
      let ql := q.qs.plus (j * 32)
      let is := 2 * j
      let u1 := 1 <<< (2 * j)
      let u2 := 2 <<< (2 * j)
      let d1 := d * ofUnsigned (getScaleMinK4 (is + 0) q.scales).1
      let m1 := mn * ofUnsigned (getScaleMinK4 (is + 0) q.scales).2
      let d2 := d * ofUnsigned (getScaleMinK4 (is + 1) q.scales).1
      let m2 := mn * ofUnsigned (getScaleMinK4 (is + 1) q.scales).2
      (List.range 32).map (fun l =>
          d1 * ofUnsigned (((ql l).toNat &&& 0x0F) +
            (if (qh l).toNat &&& u1 ≠ 0 then 16 else 0)) - m1) ++
        (List.range 32).map fun l =>
          d2 * ofUnsigned (((ql l).toNat >>> 4) +
            (if (qh l).toNat &&& u2 ≠ 0 then 16 else 0)) - m2

def deqQ6_K (src : Ptr) (nb : Nat) : List (Nat × F) :=
  (List.range nb).flatMap fun b => storesAt (b * 256) <|
    let q := blockQ6_K (src.plus (b * 210))
    let d := vgHalfToFloat fl q.d
    (List.range 2).flatMap fun n => storesAt (n * 128) <|
      let ql := q.ql.plus (n * 64)
      let qh := q.qh.plus (n * 32)
      let sc := q.scales.plus (n * 8)
      (List.range 32).flatMap fun l =>
        let is := l / 16
        let q1 : Int := ((((ql (l + 0)).toNat &&& 0x0F) |||
          (((qh l).toNat >>> 0) &&& 3) <<< 4 : Nat) : Int) - 32
        let q2 : Int := ((((ql (l + 32)).toNat &&& 0x0F) |||
          (((qh l).toNat >>> 2) &&& 3) <<< 4 : Nat) : Int) - 32
        let q3 : Int := ((((ql (l + 0)).toNat >>> 4) |||
          (((qh l).toNat >>> 4) &&& 3) <<< 4 : Nat) : Int) - 32
        let q4 : Int := ((((ql (l + 32)).toNat >>> 4) |||
          (((qh l).toNat >>> 6) &&& 3) <<< 4 : Nat) : Int) - 32
        [(l + 0, d * (int8 (sc (is + 0)) : F) * (q1 : F)),
         (l + 32, d * (int8 (sc (is + 2)) : F) * (q2 : F)),
         (l + 64, d * (int8 (sc (is + 4)) : F) * (q3 : F)),
         (l + 96, d * (int8 (sc (is + 6)) : F) * (q4 : F))]

def deqQ8_K (src : Ptr) (nb : Nat) : List (Nat × F) :=
  emitted <| (List.range nb).flatMap fun b =>
    let q := blockQ8_K (src.plus (b * 292))
    let d := fl.single q.d
    (List.range 256).map fun j => d * (int8 (q.qs j) : F)

end KQuants

section Legacy

def deqQ4_0 (src : Ptr) (nb : Nat) : List (Nat × F) :=
  (List.range nb).flatMap fun b => storesAt (b * 32) <|
    let q := blockQ4_0 (src.plus (b * 18))
    let d := vgHalfToFloat fl q.d
    (List.range 16).flatMap fun j =>
      [(j, ((((q.qs j).toNat &&& 0x0F : Nat) : Int) - 8 : Int) * d),
       (16 + j, ((((q.qs j).toNat >>> 4 : Nat) : Int) - 8 : Int) * d)]

def deqQ4_1 (src : Ptr) (nb : Nat) : List (Nat × F) :=
  (List.range nb).flatMap fun b => storesAt (b * 32) <|
    let q := blockQ4_1 (src.plus (b * 20))
    let d := vgHalfToFloat fl q.d
    let m := vgHalfToFloat fl q.m
    (List.range 16).flatMap fun j =>
      [(j, ofUnsigned ((q.qs j).toNat &&& 0x0F) * d + m),
       (16 + j, ofUnsigned ((q.qs j).toNat >>> 4) * d + m)]

def deqQ5_0 (src : Ptr) (nb : Nat) : List (Nat × F) :=
  (List.range nb).flatMap fun b => storesAt (b * 32) <|
    let q := blockQ5_0 (src.plus (b * 22))
    let qh := (q.qh.u32 0).toNat
    let d := vgHalfToFloat fl q.d
    (List.range 16).flatMap fun j =>
      let x0 : Int := ((((q.qs j).toNat &&& 0x0F) ||| ((qh >>> j) &&& 1) <<< 4 : Nat) : Int) - 16
      let x1 : Int :=
        ((((q.qs j).toNat >>> 4) ||| ((qh >>> (j + 12)) &&& 1) <<< 4 : Nat) : Int) - 16
      [(j, (x0 : F) * d), (16 + j, (x1 : F) * d)]

def deqQ5_1 (src : Ptr) (nb : Nat) : List (Nat × F) :=
  (List.range nb).flatMap fun b => storesAt (b * 32) <|
    let q := blockQ5_1 (src.plus (b * 24))
    let qh := (q.qh.u32 0).toNat
    let d := vgHalfToFloat fl q.d
    let m := vgHalfToFloat fl q.m
    (List.range 16).flatMap fun j =>
      let x0 : Nat := ((q.qs j).toNat &&& 0x0F) ||| ((qh >>> j) &&& 1) <<< 4
      let x1 : Nat := ((q.qs j).toNat >>> 4) ||| ((qh >>> (j + 12)) &&& 1) <<< 4
      [(j, ofUnsigned x0 * d + m), (16 + j, ofUnsigned x1 * d + m)]

def deqQ8_0 (src : Ptr) (nb : Nat) : List (Nat × F) :=
  (List.range nb).flatMap fun b => storesAt (b * 32) <|
    let q := blockQ8_0 (src.plus (b * 34))
    let d := vgHalfToFloat fl q.d
    (List.range 32).map fun j => (j, (int8 (q.qs j) : F) * d)

def kvaluesIq4nl : List Int :=
  [-127, -104, -83, -65, -49, -35, -22, -10, 1, 13, 25, 38, 53, 69, 89, 113]

def deqIq4Nl (src : Ptr) (nb : Nat) : List (Nat × F) :=
  (List.range nb).flatMap fun b => storesAt (b * 32) <|
    let q := blockIq4Nl (src.plus (b * 18))
    let d := vgHalfToFloat fl q.d
    (List.range 16).flatMap fun j =>
      [(j, d * (kvaluesIq4nl.getD ((q.qs j).toNat &&& 0x0F) 0 : F)),
       (16 + j, d * (kvaluesIq4nl.getD ((q.qs j).toNat >>> 4) 0 : F))]

end Legacy

section Ternary

def kPow3 : List Nat := [1, 3, 9, 27, 81]

/-- The digit `n` of a byte in radix 3: `(((uint8_t)(b * k_pow3[n])) * 3) >> 8`. -/
def tq1Digit (b : UInt8) (n : Nat) : Nat :=
  let packed := b.toNat * kPow3.getD n 0 % 256
  (packed * 3) >>> 8

def deqTq1_0 (src : Ptr) (nb : Nat) : List (Nat × F) :=
  emitted <| (List.range nb).flatMap fun b =>
    let q := blockTq1_0 (src.plus (b * 54))
    let d := vgHalfToFloat fl q.d
    ((List.range 5).flatMap fun n => (List.range 32).map fun m =>
        ((tq1Digit (q.qs (0 + m)) n : Int) - 1 : Int) * d) ++
      (((List.range 5).flatMap fun n => (List.range 16).map fun m =>
          ((tq1Digit (q.qs (32 + m)) n : Int) - 1 : Int) * d) ++
        (List.range 4).flatMap fun n => (List.range 4).map fun j =>
          ((tq1Digit (q.qh j) n : Int) - 1 : Int) * d)

def deqTq2_0 (src : Ptr) (nb : Nat) : List (Nat × F) :=
  emitted <| (List.range nb).flatMap fun b =>
    let q := blockTq2_0 (src.plus (b * 66))
    let d := vgHalfToFloat fl q.d
    (List.range 2).flatMap fun j => (List.range 4).flatMap fun l => (List.range 32).map fun m =>
      let v : Nat := ((q.qs (j * 32 + m)).toNat >>> (l * 2)) &&& 3
      ((v : Int) - 1 : Int) * d

def deqQ1_0 (src : Ptr) (nb : Nat) : List (Nat × F) :=
  (List.range nb).flatMap fun b => storesAt (b * 128) <|
    let q := blockQ1_0 (src.plus (b * 18))
    let d := vgHalfToFloat fl q.d
    (List.range 128).map fun j =>
      let bit := ((q.qs (j / 8)).toNat >>> (j % 8)) &&& 1
      (j, if bit ≠ 0 then d else -d)

def deqQ2_0 (src : Ptr) (nb : Nat) : List (Nat × F) :=
  (List.range nb).flatMap fun b => storesAt (b * 64) <|
    let q := blockQ2_0 (src.plus (b * 18))
    let d := vgHalfToFloat fl q.d
    (List.range 64).map fun j =>
      let v : Nat := ((q.qs (j / 4)).toNat >>> (j % 4 * 2)) &&& 3
      (j, ((v : Int) - 1 : Int) * d)

end Ternary

section Row

def blockFn (type : Nat) : Option (Ptr → Nat → List (Nat × F)) :=
  match type with
  | 2 => some (deqQ4_0 fl)
  | 3 => some (deqQ4_1 fl)
  | 6 => some (deqQ5_0 fl)
  | 7 => some (deqQ5_1 fl)
  | 8 => some (deqQ8_0 fl)
  | 20 => some (deqIq4Nl fl)
  | 10 => some (deqQ2_K fl)
  | 11 => some (deqQ3_K fl)
  | 12 => some (deqQ4_K fl)
  | 13 => some (deqQ5_K fl)
  | 14 => some (deqQ6_K fl)
  | 15 => some (deqQ8_K fl)
  | 34 => some (deqTq1_0 fl)
  | 35 => some (deqTq2_0 fl)
  | 41 => some (deqQ1_0 fl)
  | 42 => some (deqQ2_0 fl)
  | _ => none

/-- The column `supported_scalar` of the table. -/
def supportedScalar (q : QuantInfo) : Bool :=
  q.kind ∉ [9, 16, 17, 18, 19, 21, 22, 23, 29, 39, 40]

def vgQuantValidate (type elements bytes : Nat) : Status :=
  match quantInfo type with
  | none => .format
  | some q =>
    if elements = 0 ∨ elements % q.blockSize ≠ 0 then .format
    else if (2 ^ 64 - 1) / q.bytesPerBlock < elements / q.blockSize then .format
    else if elements / q.blockSize * q.bytesPerBlock = bytes then .ok else .format

/-- The types of one element a block, which `vg_dequantize_row` converts itself. -/
def scalarFn (type : Nat) : Option (Ptr → Nat → F) :=
  match type with
  | 0 => some fun p i => fl.single (p.u32 (i * 4))
  | 1 => some fun p i => vgHalfToFloat fl (p.u16 (i * 2))
  | 30 => some fun p i => bf16ToFloat fl (p.u16 (i * 2))
  | 4 => some fun p i => fl.double (p.u64 (i * 8))
  | 24 => some fun p i => (int8 (p i) : F)
  | 25 => some fun p i => ((p.u16 (i * 2)).toInt16.toInt : F)
  | 26 => some fun p i => ((p.u32 (i * 4)).toInt32.toInt : F)
  | 27 => some fun p i => ((p.u64 (i * 8)).toInt64.toInt : F)
  | _ => none

/-- The buffers are not `NULL`. -/
def vgDequantizeRow (type : Nat) (packed : Ptr) (bytes : Nat) (out : Nat → F) (elements : Nat) :
    Status × (Nat → F) :=
  if elements = 0 then (.invalid, out)
  else if vgQuantValidate type elements bytes ≠ .ok then (.format, out)
  else
    match quantInfo type with
    | none => (.unsupported, out)
    | some qi =>
      if supportedScalar qi = false then (.unsupported, out)
      else
        match scalarFn fl type, blockFn fl type with
        | some f, _ => (.ok, storeAll out ((List.range elements).map fun i => (i, f packed i)))
        | none, some fn => (.ok, storeAll out (fn packed (elements / qi.blockSize)))
        | none, none => (.unsupported, out)

end Row

end VgEngine.Quant
