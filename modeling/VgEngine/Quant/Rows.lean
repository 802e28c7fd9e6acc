import VgEngine.Quant.Elements

/-! The row kernels of `cpu_ops.c`. Each is the list of its stores into `y`, in order; none of them
reads `y`. -/
namespace VgEngine.Quant
open VgEngine.Lib VgEngine.Gguf

variable {F : Type*} [Zero F] [Add F] [Sub F] [Neg F] [Mul F] [IntCast F] (fl : Floats F)

section Loops

/-- `for (r = r0; r < r1; ++r) y[r] = row(r);` -/
def forRows (r0 r1 : Nat) (row : Nat → F) : List (Nat × F) :=
  (List.range' r0 (r1 - r0)).map fun r => (r, row r)

/-- `for (; r + 1 < r1; r += 2)` on `uint32_t`, with two stores a pass, and then `rest` from the last
`r` on: `none` when that many passes are not enough. -/
def forPairs (r1 : Nat) (pair : Nat → F × F) (rest : Nat → List (Nat × F)) :
    Nat → Nat → Option (List (Nat × F))
  | 0, _ => none
  | fuel + 1, r =>
    if (r + 1) % 2 ^ 32 < r1 then
      (forPairs r1 pair rest fuel ((r + 2) % 2 ^ 32)).map fun stores =>
        (r, (pair r).1) :: ((r + 1) % 2 ^ 32, (pair r).2) :: stores
    else some (rest r)

/-- `acc = 0; for (j = 0; j < n; ++j) acc = body(acc, j);` -/
def accumulate (n : Nat) (body : F → Nat → F) : F := (List.range n).foldl body 0

end Loops

section Direct

variable (W : Ptr) (x : Nat → F) (inDim : Nat)

def rowsF32 (r0 r1 : Nat) : List (Nat × F) :=
  forRows r0 r1 fun r =>
    let wr := W.plus (r * inDim * 4)
    accumulate inDim fun acc j => acc + fl.single (wr.u32 (j * 4)) * x j

def rowsF16 (r0 r1 : Nat) : List (Nat × F) :=
  forRows r0 r1 fun r =>
    let wr := W.plus (r * inDim * 2)
    accumulate inDim fun acc j => acc + vgHalfToFloat fl (wr.u16 (j * 2)) * x j

def rowsQ8_0 (r0 r1 : Nat) : List (Nat × F) :=
  let blocks := inDim / 32
  forRows r0 r1 fun r =>
    let row := W.plus (r * blocks * 34)
    accumulate blocks fun acc b =>
      let blk := blockQ8_0 (row.plus (b * 34))
      let d := vgHalfToFloat fl blk.d
      let xb := fun j => x (b * 32 + j)
      acc + d * accumulate 32 fun sum j => sum + (int8 (blk.qs j) : F) * xb j

def rowsQ4_0 (fuel r0 r1 : Nat) : Option (List (Nat × F)) :=
  let blocks := inDim / 32
  forPairs r1
    (fun r =>
      let row0 := W.plus (r * blocks * 18)
      let row1 := row0.plus (blocks * 18)
      (List.range blocks).foldl (fun acc b =>
        let b0 := blockQ4_0 (row0.plus (b * 18))
        let b1 := blockQ4_0 (row1.plus (b * 18))
        let xb := fun j => x (b * 32 + j)
        let s := (List.range 16).foldl (fun s j =>
          let xl := xb j
          let xh := xb (16 + j)
          (s.1 + (((((b0.qs j).toNat &&& 0x0F : Nat) : Int) - 8 : Int) * xl +
              ((((b0.qs j).toNat >>> 4 : Nat) : Int) - 8 : Int) * xh),
            s.2 + (((((b1.qs j).toNat &&& 0x0F : Nat) : Int) - 8 : Int) * xl +
              ((((b1.qs j).toNat >>> 4 : Nat) : Int) - 8 : Int) * xh))) ((0, 0) : F × F)
        (acc.1 + vgHalfToFloat fl b0.d * s.1, acc.2 + vgHalfToFloat fl b1.d * s.2)) (0, 0))
    (fun r => forRows r r1 fun r =>
      let row := W.plus (r * blocks * 18)
      accumulate blocks fun acc b =>
        let blk := blockQ4_0 (row.plus (b * 18))
        let xb := fun j => x (b * 32 + j)
        acc + vgHalfToFloat fl blk.d * accumulate 16 fun sum j =>
          let lo : Int := (((blk.qs j).toNat &&& 0x0F : Nat) : Int) - 8
          let hi : Int := (((blk.qs j).toNat >>> 4 : Nat) : Int) - 8
          sum + ((lo : F) * xb j + (hi : F) * xb (16 + j)))
    fuel r0

end Direct

section Ternary

variable (W : Ptr) (x : Nat → F) (inDim : Nat)

def kTern2 (i : Nat) : F := (([-1, 0, 1, 2] : List Int).getD i 0 : F)

def kSign (i : Nat) : F := (([-1, 1] : List Int).getD i 0 : F)

def rowsTq2_0 (r0 r1 : Nat) : List (Nat × F) :=
  let nbs := inDim / 256
  forRows r0 r1 fun r =>
    let row := W.plus (r * nbs * 66)
    accumulate nbs fun acc ib =>
      let blk := blockTq2_0 (row.plus (ib * 66))
      let xb := fun j => x (ib * 256 + j)
      let s := (List.range 2).foldl (fun s g =>
        let q := blk.qs.plus (g * 32)
        let x0 := fun m => xb (g * 128 + m)
        (List.range 32).foldl (fun s m =>
          let b := (q m).toNat
          (s.1 + kTern2 (b &&& 3) * x0 m,
            s.2.1 + kTern2 ((b >>> 2) &&& 3) * x0 (32 + m),
            s.2.2.1 + kTern2 ((b >>> 4) &&& 3) * x0 (64 + m),
            s.2.2.2 + kTern2 ((b >>> 6) &&& 3) * x0 (96 + m))) s) ((0, 0, 0, 0) : F × F × F × F)
      acc + vgHalfToFloat fl blk.d * ((s.1 + s.2.1) + (s.2.2.1 + s.2.2.2))

namespace Tq1

def N : Int := -1
def O : Int := 0
def P : Int := 1

/-- `k_tq1_lut`, with `N`, `O` and `P` for -1, 0 and 1. -/
def kTq1Lut : List (List Int) :=
  [[N, N, N, N, N], [N, N, N, N, N], [N, N, N, N, O], [N, N, N, N, P], [N, N, N, O, N],
   [N, N, N, O, O], [N, N, N, O, P], [N, N, N, P, N], [N, N, N, P, O], [N, N, N, P, P],
   [N, N, O, N, N], [N, N, O, N, O], [N, N, O, N, P], [N, N, O, O, N], [N, N, O, O, O],
   [N, N, O, O, P], [N, N, O, P, N], [N, N, O, P, O], [N, N, O, P, P], [N, N, P, N, N],
   [N, N, P, N, N], [N, N, P, N, O], [N, N, P, N, P], [N, N, P, O, N], [N, N, P, O, O],
   [N, N, P, O, P], [N, N, P, P, N], [N, N, P, P, O], [N, N, P, P, P], [N, O, N, N, N],
   [N, O, N, N, O], [N, O, N, N, P], [N, O, N, O, N], [N, O, N, O, O], [N, O, N, O, P],
   [N, O, N, P, N], [N, O, N, P, O], [N, O, N, P, P], [N, O, O, N, N], [N, O, O, N, O],
   [N, O, O, N, O], [N, O, O, N, P], [N, O, O, O, N], [N, O, O, O, O], [N, O, O, O, P],
   [N, O, O, P, N], [N, O, O, P, O], [N, O, O, P, P], [N, O, P, N, N], [N, O, P, N, O],
   [N, O, P, N, P], [N, O, P, O, N], [N, O, P, O, O], [N, O, P, O, P], [N, O, P, P, N],
   [N, O, P, P, O], [N, O, P, P, P], [N, P, N, N, N], [N, P, N, N, O], [N, P, N, N, P],
   [N, P, N, N, P], [N, P, N, O, N], [N, P, N, O, O], [N, P, N, O, P], [N, P, N, P, N],
   [N, P, N, P, O], [N, P, N, P, P], [N, P, O, N, N], [N, P, O, N, O], [N, P, O, N, P],
   [N, P, O, O, N], [N, P, O, O, O], [N, P, O, O, P], [N, P, O, P, N], [N, P, O, P, O],
   [N, P, O, P, P], [N, P, P, N, N], [N, P, P, N, O], [N, P, P, N, P], [N, P, P, N, P],
   [N, P, P, O, N], [N, P, P, O, O], [N, P, P, O, P], [N, P, P, P, N], [N, P, P, P, O],
   [N, P, P, P, P], [O, N, N, N, N], [O, N, N, N, O], [O, N, N, N, P], [O, N, N, O, N],
   [O, N, N, O, O], [O, N, N, O, P], [O, N, N, P, N], [O, N, N, P, O], [O, N, N, P, P],
   [O, N, O, N, N], [O, N, O, N, O], [O, N, O, N, P], [O, N, O, O, N], [O, N, O, O, N],
   [O, N, O, O, O], [O, N, O, O, P], [O, N, O, P, N], [O, N, O, P, O], [O, N, O, P, P],
   [O, N, P, N, N], [O, N, P, N, O], [O, N, P, N, P], [O, N, P, O, N], [O, N, P, O, O],
   [O, N, P, O, P], [O, N, P, P, N], [O, N, P, P, O], [O, N, P, P, P], [O, O, N, N, N],
   [O, O, N, N, O], [O, O, N, N, P], [O, O, N, O, N], [O, O, N, O, O], [O, O, N, O, O],
   [O, O, N, O, P], [O, O, N, P, N], [O, O, N, P, O], [O, O, N, P, P], [O, O, O, N, N],
   [O, O, O, N, O], [O, O, O, N, P], [O, O, O, O, N], [O, O, O, O, O], [O, O, O, O, P],
   [O, O, O, P, N], [O, O, O, P, O], [O, O, O, P, P], [O, O, P, N, N], [O, O, P, N, O],
   [O, O, P, N, P], [O, O, P, O, N], [O, O, P, O, O], [O, O, P, O, O], [O, O, P, O, P],
   [O, O, P, P, N], [O, O, P, P, O], [O, O, P, P, P], [O, P, N, N, N], [O, P, N, N, O],
   [O, P, N, N, P], [O, P, N, O, N], [O, P, N, O, O], [O, P, N, O, P], [O, P, N, P, N],
   [O, P, N, P, O], [O, P, N, P, P], [O, P, O, N, N], [O, P, O, N, O], [O, P, O, N, P],
   [O, P, O, O, N], [O, P, O, O, O], [O, P, O, O, P], [O, P, O, O, P], [O, P, O, P, N],
   [O, P, O, P, O], [O, P, O, P, P], [O, P, P, N, N], [O, P, P, N, O], [O, P, P, N, P],
   [O, P, P, O, N], [O, P, P, O, O], [O, P, P, O, P], [O, P, P, P, N], [O, P, P, P, O],
   [O, P, P, P, P], [P, N, N, N, N], [P, N, N, N, O], [P, N, N, N, P], [P, N, N, O, N],
   [P, N, N, O, O], [P, N, N, O, P], [P, N, N, P, N], [P, N, N, P, N], [P, N, N, P, O],
   [P, N, N, P, P], [P, N, O, N, N], [P, N, O, N, O], [P, N, O, N, P], [P, N, O, O, N],
   [P, N, O, O, O], [P, N, O, O, P], [P, N, O, P, N], [P, N, O, P, O], [P, N, O, P, P],
   [P, N, P, N, N], [P, N, P, N, O], [P, N, P, N, P], [P, N, P, O, N], [P, N, P, O, O],
   [P, N, P, O, P], [P, N, P, P, N], [P, N, P, P, N], [P, N, P, P, O], [P, N, P, P, P],
   [P, O, N, N, N], [P, O, N, N, O], [P, O, N, N, P], [P, O, N, O, N], [P, O, N, O, O],
   [P, O, N, O, P], [P, O, N, P, N], [P, O, N, P, O], [P, O, N, P, P], [P, O, O, N, N],
   [P, O, O, N, O], [P, O, O, N, P], [P, O, O, O, N], [P, O, O, O, O], [P, O, O, O, P],
   [P, O, O, P, N], [P, O, O, P, O], [P, O, O, P, O], [P, O, O, P, P], [P, O, P, N, N],
   [P, O, P, N, O], [P, O, P, N, P], [P, O, P, O, N], [P, O, P, O, O], [P, O, P, O, P],
   [P, O, P, P, N], [P, O, P, P, O], [P, O, P, P, P], [P, P, N, N, N], [P, P, N, N, O],
   [P, P, N, N, P], [P, P, N, O, N], [P, P, N, O, O], [P, P, N, O, P], [P, P, N, P, N],
   [P, P, N, P, O], [P, P, N, P, P], [P, P, N, P, P], [P, P, O, N, N], [P, P, O, N, O],
   [P, P, O, N, P], [P, P, O, O, N], [P, P, O, O, O], [P, P, O, O, P], [P, P, O, P, N],
   [P, P, O, P, O], [P, P, O, P, P], [P, P, P, N, N], [P, P, P, N, O], [P, P, P, N, P],
   [P, P, P, O, N], [P, P, P, O, O], [P, P, P, O, P], [P, P, P, P, N], [P, P, P, P, O],
   [P, P, P, P, P]]

end Tq1

def lut (b : UInt8) (n : Nat) : Int := (Tq1.kTq1Lut.getD b.toNat []).getD n 0

def rowsTq1_0 (r0 r1 : Nat) : List (Nat × F) :=
  let nbs := inDim / 256
  forRows r0 r1 fun r =>
    let row := W.plus (r * nbs * 54)
    accumulate nbs fun acc ib =>
      let blk := blockTq1_0 (row.plus (ib * 54))
      let xb := fun j => x (ib * 256 + j)
      let s : F := accumulate 32 fun s m =>
        let b := blk.qs m
        s + (lut b 0 : F) * xb m + (lut b 1 : F) * xb (32 + m) + (lut b 2 : F) * xb (64 + m) +
          (lut b 3 : F) * xb (96 + m) + (lut b 4 : F) * xb (128 + m)
      let xp := fun j => xb (160 + j)
      let s := (List.range 16).foldl (fun s m =>
        let b := blk.qs (32 + m)
        s + (lut b 0 : F) * xp m + (lut b 1 : F) * xp (16 + m) + (lut b 2 : F) * xp (32 + m) +
          (lut b 3 : F) * xp (48 + m) + (lut b 4 : F) * xp (64 + m)) s
      let s := (List.range 4).foldl (fun s n =>
        let xp := fun j => xb (240 + n * 4 + j)
        (List.range 4).foldl (fun s m =>
          let xi : Int := (tq1Digit (blk.qh m) n : Int) - 1
          s + (xi : F) * xp m) s) s
      acc + vgHalfToFloat fl blk.d * s

/-- The eight statements for the bits of a byte are a loop here. -/
def rowsQ1_0 (r0 r1 : Nat) : List (Nat × F) :=
  let nbs := inDim / 128
  forRows r0 r1 fun r =>
    let row := W.plus (r * nbs * 18)
    accumulate nbs fun acc ib =>
      let blk := blockQ1_0 (row.plus (ib * 18))
      let xb := fun j => x (ib * 128 + j)
      acc + vgHalfToFloat fl blk.d * accumulate 16 fun s j =>
        let b := (blk.qs j).toNat
        let xp := fun k => xb (j * 8 + k)
        (List.range 8).foldl (fun s k => s + kSign ((b >>> k) &&& 1) * xp k) s

/-- The four statements for the codes of a byte are a loop here. -/
def rowsQ2_0 (r0 r1 : Nat) : List (Nat × F) :=
  let nbs := inDim / 64
  forRows r0 r1 fun r =>
    let row := W.plus (r * nbs * 18)
    accumulate nbs fun acc ib =>
      let blk := blockQ2_0 (row.plus (ib * 18))
      let xb := fun j => x (ib * 64 + j)
      acc + vgHalfToFloat fl blk.d * accumulate 16 fun s j =>
        let b := (blk.qs j).toNat
        (List.range 4).foldl (fun s k => s + kTern2 ((b >>> (2 * k)) &&& 3) * xb (j * 4 + k)) s

end Ternary

section KQuants

variable (W : Ptr) (x : Nat → F) (inDim : Nat)

def getScaleK4 (j : Nat) (q : Ptr) : Nat :=
  if j < 4 then (q j).toNat &&& 63
  else ((q (j + 4)).toNat &&& 0x0F) ||| ((q (j - 4)).toNat >>> 6) <<< 4

def getMinK4 (j : Nat) (q : Ptr) : Nat :=
  if j < 4 then (q (j + 4)).toNat &&& 63
  else ((q (j + 4)).toNat >>> 4) ||| ((q j).toNat >>> 6) <<< 4

def rowsQ4_K (fuel r0 r1 : Nat) : Option (List (Nat × F)) :=
  let nbs := inDim / 256
  forPairs r1
    (fun r =>
      let row0 := W.plus (r * nbs * 144)
      let row1 := row0.plus (nbs * 144)
      (List.range nbs).foldl (fun acc ib =>
        let k0 := blockQ4_K (row0.plus (ib * 144))
        let k1 := blockQ4_K (row1.plus (ib * 144))
        let d0 := vgHalfToFloat fl k0.d
        let mn0 := vgHalfToFloat fl k0.dmin
        let d1v := vgHalfToFloat fl k1.d
        let mn1 := vgHalfToFloat fl k1.dmin
        let xb := fun j => x (ib * 256 + j)
        (List.range 4).foldl (fun acc i =>
          let is := 2 * i
          let off := 64 * i
          let q0 := k0.qs.plus (i * 32)
          let q1s := k1.qs.plus (i * 32)
          let a0 := d0 * ofUnsigned (getScaleK4 (is + 0) k0.scales)
          let b0 := mn0 * ofUnsigned (getMinK4 (is + 0) k0.scales)
          let c0 := d0 * ofUnsigned (getScaleK4 (is + 1) k0.scales)
          let e0 := mn0 * ofUnsigned (getMinK4 (is + 1) k0.scales)
          let a1 := d1v * ofUnsigned (getScaleK4 (is + 0) k1.scales)
          let b1 := mn1 * ofUnsigned (getMinK4 (is + 0) k1.scales)
          let c1 := d1v * ofUnsigned (getScaleK4 (is + 1) k1.scales)
          let e1 := mn1 * ofUnsigned (getMinK4 (is + 1) k1.scales)
          (List.range 32).foldl (fun acc l =>
            let xl := xb (off + l)
            let xh := xb (off + 32 + l)
            (acc.1 + (a0 * ofUnsigned ((q0 l).toNat &&& 0x0F) - b0) * xl +
                (c0 * ofUnsigned ((q0 l).toNat >>> 4) - e0) * xh,
              acc.2 + (a1 * ofUnsigned ((q1s l).toNat &&& 0x0F) - b1) * xl +
                (c1 * ofUnsigned ((q1s l).toNat >>> 4) - e1) * xh)) acc) acc) ((0, 0) : F × F))
    (fun r => forRows r r1 fun r =>
      let row := W.plus (r * nbs * 144)
      accumulate nbs fun acc ib =>
        let blk := blockQ4_K (row.plus (ib * 144))
        let d := vgHalfToFloat fl blk.d
        let mn := vgHalfToFloat fl blk.dmin
        let xb := fun j => x (ib * 256 + j)
        (List.range 4).foldl (fun acc i =>
          let is := 2 * i
          let off := 64 * i
          let qs := blk.qs.plus (i * 32)
          let d1 := d * ofUnsigned (getScaleK4 (is + 0) blk.scales)
          let m1 := mn * ofUnsigned (getMinK4 (is + 0) blk.scales)
          let d2 := d * ofUnsigned (getScaleK4 (is + 1) blk.scales)
          let m2 := mn * ofUnsigned (getMinK4 (is + 1) blk.scales)
          (List.range 32).foldl (fun acc l =>
            acc + (d1 * ofUnsigned ((qs l).toNat &&& 0x0F) - m1) * xb (off + l) +
              (d2 * ofUnsigned ((qs l).toNat >>> 4) - m2) * xb (off + 32 + l)) acc) acc)
    fuel r0

def rowsQ6_K (r0 r1 : Nat) : List (Nat × F) :=
  let nbs := inDim / 256
  forRows r0 r1 fun r =>
    let row := W.plus (r * nbs * 210)
    accumulate nbs fun acc ib =>
      let blk := blockQ6_K (row.plus (ib * 210))
      let d := vgHalfToFloat fl blk.d
      let xb := fun j => x (ib * 256 + j)
      (List.range 2).foldl (fun acc half =>
        let ql := blk.ql.plus (half * 64)
        let qh := blk.qh.plus (half * 32)
        let sc := blk.scales.plus (half * 8)
        (List.range 32).foldl (fun acc l =>
          let is := l / 16
          let v1 : Int := ((((ql l).toNat &&& 0x0F) |||
            (((qh l).toNat >>> 0) &&& 3) <<< 4 : Nat) : Int) - 32
          let v2 : Int := ((((ql (l + 32)).toNat &&& 0x0F) |||
            (((qh l).toNat >>> 2) &&& 3) <<< 4 : Nat) : Int) - 32
          let v3 : Int := ((((ql l).toNat >>> 4) |||
            (((qh l).toNat >>> 4) &&& 3) <<< 4 : Nat) : Int) - 32
          let v4 : Int := ((((ql (l + 32)).toNat >>> 4) |||
            (((qh l).toNat >>> 6) &&& 3) <<< 4 : Nat) : Int) - 32
          acc + d * (int8 (sc (is + 0)) : F) * (v1 : F) * xb (half * 128 + l) +
            d * (int8 (sc (is + 2)) : F) * (v2 : F) * xb (half * 128 + 32 + l) +
            d * (int8 (sc (is + 4)) : F) * (v3 : F) * xb (half * 128 + 64 + l) +
            d * (int8 (sc (is + 6)) : F) * (v4 : F) * xb (half * 128 + 96 + l)) acc) acc

end KQuants

section Matmul

def nan : F := fl.single 0x7FC00000

/-- `rows_generic_deq`. The scratch row is `none` when `malloc` fails, and else what it holds at
first. -/
def rowsGenericDeq (type : Nat) (scratch : Option (Nat → F)) (W : Ptr) (x : Nat → F) (inDim : Nat)
    (r0 r1 : Nat) : List (Nat × F) :=
  match quantInfo type with
  | none => forRows r0 r1 fun _ => nan fl
  | some qi =>
    if supportedScalar qi = false then forRows r0 r1 fun _ => nan fl
    else
      let rowBytes := inDim / qi.blockSize * qi.bytesPerBlock
      match scratch with
      | none => forRows r0 r1 fun _ => nan fl
      | some row =>
        ((List.range' r0 (r1 - r0)).foldl (fun st r =>
          let deq := vgDequantizeRow fl type (W.plus (r * rowBytes)) rowBytes st.2 inDim
          if deq.1 ≠ .ok then (st.1 ++ [(r, nan fl)], deq.2)
          else (st.1 ++ [(r, accumulate inDim fun acc j => acc + deq.2 j * x j)], deq.2))
          (([] : List (Nat × F)), row)).1

/-- The weights, the input, its length, the passes that the loop over pairs of rows may take, and the
range of rows. -/
abbrev RowFn (F : Type*) := Ptr → (Nat → F) → Nat → Nat → Nat → Nat → Option (List (Nat × F))

def pickRows (type : Nat) : Option (RowFn F) :=
  match type with
  | 0 => some fun W x inDim _ r0 r1 => some (rowsF32 fl W x inDim r0 r1)
  | 1 => some fun W x inDim _ r0 r1 => some (rowsF16 fl W x inDim r0 r1)
  | 8 => some fun W x inDim _ r0 r1 => some (rowsQ8_0 fl W x inDim r0 r1)
  | 2 => some (rowsQ4_0 fl)
  | 12 => some (rowsQ4_K fl)
  | 14 => some fun W x inDim _ r0 r1 => some (rowsQ6_K fl W x inDim r0 r1)
  | 34 => some fun W x inDim _ r0 r1 => some (rowsTq1_0 fl W x inDim r0 r1)
  | 35 => some fun W x inDim _ r0 r1 => some (rowsTq2_0 fl W x inDim r0 r1)
  | 41 => some fun W x inDim _ r0 r1 => some (rowsQ1_0 fl W x inDim r0 r1)
  | 42 => some fun W x inDim _ r0 r1 => some (rowsQ2_0 fl W x inDim r0 r1)
  | _ => none

/-- The stores of `mat_job` on a range, or `none` when it has not ended. -/
def matJob (type : Nat) (W : Ptr) (x : Nat → F) (inDim fuel : Nat) (scratch : Option (Nat → F))
    (range : Nat × Nat) : Option (List (Nat × F)) :=
  if range.2 ≤ range.1 then some []
  else
    match pickRows fl type with
    | some rows => rows W x inDim fuel range.1 range.2
    | none => some (rowsGenericDeq fl type scratch W x inDim range.1 range.2)

/-- `matmul_impl`, with the stores of the jobs that it runs, where these end. The pointers are not
`NULL`. -/
def matmulImpl (type : Nat) (y : Nat → F) (outDim inDim : Nat)
    (stores : Option (List (Nat × F))) : Option (Status × (Nat → F)) :=
  if outDim = 0 ∨ inDim = 0 then some (.invalid, y)
  else
    match quantInfo type with
    | none => some (.unsupported, y)
    | some qi =>
      if inDim % qi.blockSize ≠ 0 then some (.format, y)
      else if supportedScalar qi = false then some (.unsupported, y)
      else stores.map fun stores => (.ok, storeAll y stores)

/-- Whether the rows go to the pool. -/
def usesPool (pool : Bool) (threads outDim inDim : Nat) : Prop :=
  pool = true ∧ 1 < threads ∧ 1 < outDim ∧ 64 ≤ inDim

instance (pool : Bool) (threads outDim inDim : Nat) :
    Decidable (usesPool pool threads outDim inDim) := by
  unfold usesPool
  infer_instance

def vgCpuMatmulRef (type : Nat) (W : Ptr) (x y : Nat → F) (outDim inDim fuel : Nat)
    (scratch : Option (Nat → F)) : Option (Status × (Nat → F)) :=
  matmulImpl type y outDim inDim (matJob fl type W x inDim fuel scratch (0, outDim))

/-- `vg_cpu_matmul`, where `stores` are those that the callbacks of `vg_threadpool_parallel_for` make,
in the order in which they happen. -/
def vgCpuMatmul (type : Nat) (W : Ptr) (x y : Nat → F) (outDim inDim fuel : Nat) (pool : Bool)
    (threads : Nat) (stores : Option (List (Nat × F))) (scratch : Option (Nat → F)) :
    Option (Status × (Nat → F)) :=
  matmulImpl type y outDim inDim
    (if usesPool pool threads outDim inDim then stores
    else matJob fl type W x inDim fuel scratch (0, outDim))

end Matmul

end VgEngine.Quant
