import VgEngine.Quant.Ranges
import Mathlib.Algebra.BigOperators.Pi
import Mathlib.Tactic.IntervalCases
import Mathlib.Tactic.Ring

/-! In exact arithmetic a fused kernel computes the dot product with the row that
`vg_dequantize_row` decodes. -/
namespace VgEngine.Quant
open VgEngine.Lib VgEngine.Gguf

section Sums

variable {K : Type*} [CommRing K]

theorem accumulate_add (n : Nat) (f : Nat → K) :
    accumulate n (fun acc j => acc + f j) = ∑ j ∈ Finset.range n, f j := by
  rw [accumulate, foldl_add_range, zero_add]

/-- A sum over a block of `k` planes of `n` elements. -/
theorem sum_planes (k n : Nat) (f : Nat → Nat → K) (x : Nat → K) :
    ∑ e ∈ Finset.range (k * n), f (e / n) (e % n) * x e =
      ∑ p ∈ Finset.range k, ∑ j ∈ Finset.range n, f p j * x (p * n + j) := by
  rw [sum_range_mul]
  refine Finset.sum_congr rfl fun p _ => Finset.sum_congr rfl fun j hj => ?_
  have hlt : j < n := Finset.mem_range.mp hj
  rw [show (p * n + j) / n = p by
      rw [Nat.mul_comm, Nat.mul_add_div (by omega), Nat.div_eq_of_lt hlt, Nat.add_zero],
    show (p * n + j) % n = j by rw [Nat.mul_comm, Nat.mul_add_mod, Nat.mod_eq_of_lt hlt]]

/-- The row of a type of blocks, block by block. -/
theorem sum_elements {fl : Floats K} {type : Nat} {qi : QuantInfo} (hscalar : scalarFn fl type = none)
    (hqi : quantInfo type = some qi) (p : Ptr) (x : Nat → K) (nb : Nat) :
    ∑ i ∈ Finset.range (nb * qi.blockSize), element fl type p i * x i =
      ∑ b ∈ Finset.range nb, ∑ e ∈ Finset.range qi.blockSize,
        blockElement fl type (p.plus (b * qi.bytesPerBlock)) e * x (b * qi.blockSize + e) := by
  rw [← sum_planes]
  exact Finset.sum_congr rfl fun i _ => by rw [element, hscalar, hqi]

end Sums

section Tables

variable {K : Type*} [CommRing K]

theorem kTern2_eq (n : Nat) : (kTern2 (n &&& 3) : K) = (((n &&& 3 : Nat) : Int) - 1 : Int) := by
  have hlt : n &&& 3 < 4 := Nat.and_lt_two_pow n (by decide : 3 < 2 ^ 2)
  interval_cases n &&& 3 <;> rfl

theorem kSign_eq (n : Nat) (d : K) :
    (kSign (n &&& 1) : K) * d = if n &&& 1 ≠ 0 then d else -d := by
  have hlt : n &&& 1 < 2 := Nat.and_lt_two_pow n (by decide : 1 < 2 ^ 1)
  interval_cases n &&& 1 <;> simp [kSign]

/-- Every entry of the table is the digit that it stands for, less one. -/
theorem kTq1Lut_digits : ∀ b < 256, ∀ n < 5,
    (Tq1.kTq1Lut.getD b []).getD n 0 = ((b * kPow3.getD n 0 % 256 * 3) >>> 8 : Nat) - (1 : Int) := by
  decide +kernel

theorem lut_eq (b : UInt8) {n : Nat} (hn : n < 5) : lut b n = (tq1Digit b n : Int) - 1 :=
  kTq1Lut_digits b.toNat b.toNat_lt n hn

end Tables

section Blocks

variable {K : Type*} [CommRing K] {fl : Floats K} (p : Ptr) (x : Nat → K)

theorem dot_q8_0 :
    vgHalfToFloat fl (blockQ8_0 p).d * ∑ j ∈ Finset.range 32, (int8 ((blockQ8_0 p).qs j) : K) * x j =
      ∑ e ∈ Finset.range 32, blockElement fl 8 p e * x e := by
  rw [Finset.mul_sum]
  refine Finset.sum_congr rfl fun j _ => ?_
  simp only [blockElement]
  ring

theorem dot_q4_0 :
    vgHalfToFloat fl (blockQ4_0 p).d * accumulate 16 (passQ4_0 (blockQ4_0 p) x) =
      ∑ e ∈ Finset.range 32, blockElement fl 2 p e * x e := by
  have hsum : accumulate 16 (passQ4_0 (blockQ4_0 p) x) = ∑ j ∈ Finset.range 16,
      ((((nibble 0 ((blockQ4_0 p).qs j) : Int) - 8 : Int) : K) * x j +
        (((nibble 1 ((blockQ4_0 p).qs j) : Int) - 8 : Int) : K) * x (16 + j)) :=
    accumulate_add 16 _
  rw [show ∑ e ∈ Finset.range 32, blockElement fl 2 p e * x e = _ from
    sum_planes 2 16 (elemQ4_0 fl (blockQ4_0 p)) x, hsum]
  simp only [Finset.sum_range_succ _ 1, Finset.sum_range_one, Finset.mul_sum,
    ← Finset.sum_add_distrib]
  refine Finset.sum_congr rfl fun j _ => ?_
  simp only [elemQ4_0, Nat.zero_mul, Nat.zero_add, Nat.one_mul]
  ring

theorem getScaleK4_eq (j : Nat) (q : Ptr) : getScaleK4 j q = (getScaleMinK4 j q).1 := by
  unfold getScaleK4 getScaleMinK4
  split_ifs <;> rfl

theorem getMinK4_eq (j : Nat) (q : Ptr) : getMinK4 j q = (getScaleMinK4 j q).2 := by
  unfold getMinK4 getScaleMinK4
  split_ifs <;> rfl

theorem passQ4_K_eq (q : BlockQ4_K) (xb : Nat → K) (i : Nat) :
    passQ4_K fl q xb i = fun acc l => acc +
      (elemQ4_K fl q i 0 l * xb (64 * i + l) + elemQ4_K fl q i 1 l * xb (64 * i + 32 + l)) := by
  funext acc l
  simp only [passQ4_K, getScaleK4_eq, getMinK4_eq, elemQ4_K, nibble, add_assoc]

theorem dot_q4_K (acc : K) :
    (List.range 4).foldl (fun acc i => (List.range 32).foldl
        (passQ4_K fl (blockQ4_K p) x i) acc) acc =
      acc + ∑ e ∈ Finset.range 256, blockElement fl 12 p e * x e := by
  have hplanes : ∑ e ∈ Finset.range 256, blockElement fl 12 p e * x e = _ :=
    sum_planes 4 64 (fun j e => elemQ4_K fl (blockQ4_K p) j (e / 32) (e % 32)) x
  simp only [passQ4_K_eq, foldl_add_range, hplanes]
  refine congrArg (acc + ·) (Finset.sum_congr rfl fun i _ => ?_)
  rw [sum_planes 2 32 (elemQ4_K fl (blockQ4_K p) i) fun e => x (i * 64 + e)]
  simp only [Finset.sum_range_succ _ 1, Finset.sum_range_one, ← Finset.sum_add_distrib]
  refine Finset.sum_congr rfl fun l _ => ?_
  simp only [Nat.zero_mul, Nat.zero_add, Nat.one_mul, Nat.mul_comm 64 i, Nat.add_assoc]

/-- The planes of a half of a block of Q6_K. -/
theorem dot_q6_K_half (q : BlockQ6_K) (n : Nat) (xb : Nat → K) :
    ∑ e ∈ Finset.range 128, elemQ6_K fl q n (e / 32) (e % 32) * xb e =
      ∑ l ∈ Finset.range 32, (elemQ6_K fl q n 0 l * xb l + (elemQ6_K fl q n 1 l * xb (32 + l) +
        (elemQ6_K fl q n 2 l * xb (64 + l) + elemQ6_K fl q n 3 l * xb (96 + l)))) := by
  rw [show ∑ e ∈ Finset.range 128, elemQ6_K fl q n (e / 32) (e % 32) * xb e = _ from
    sum_planes 4 32 (elemQ6_K fl q n) xb]
  simp only [Finset.sum_range_succ _ 3, Finset.sum_range_succ _ 2, Finset.sum_range_succ _ 1,
    Finset.sum_range_one, ← Finset.sum_add_distrib]
  refine Finset.sum_congr rfl fun l _ => ?_
  simp only [Nat.zero_mul, Nat.zero_add, Nat.one_mul, Nat.reduceMul, add_assoc]

theorem dot_q6_K (acc : K) :
    (List.range 2).foldl (fun acc half => (List.range 32).foldl (fun acc l =>
        acc + elemQ6_K fl (blockQ6_K p) half 0 l * x (half * 128 + l) +
          elemQ6_K fl (blockQ6_K p) half 1 l * x (half * 128 + 32 + l) +
          elemQ6_K fl (blockQ6_K p) half 2 l * x (half * 128 + 64 + l) +
          elemQ6_K fl (blockQ6_K p) half 3 l * x (half * 128 + 96 + l)) acc) acc =
      acc + ∑ e ∈ Finset.range 256, blockElement fl 14 p e * x e := by
  have hhalves : ∑ e ∈ Finset.range 256, blockElement fl 14 p e * x e = _ :=
    sum_planes 2 128 (fun n e => elemQ6_K fl (blockQ6_K p) n (e / 32) (e % 32)) x
  simp only [add_assoc, foldl_add_range, hhalves]
  refine congrArg (acc + ·) (Finset.sum_congr rfl fun n _ => ?_)
  rw [dot_q6_K_half (blockQ6_K p) n fun e => x (n * 128 + e)]

theorem dot_q2_0 :
    vgHalfToFloat fl (blockQ2_0 p).d * accumulate 16 (fun s j => (List.range 4).foldl (fun s k =>
        s + kTern2 (((((blockQ2_0 p).qs j).toNat) >>> (2 * k)) &&& 3) * x (j * 4 + k)) s) =
      ∑ e ∈ Finset.range 64, blockElement fl 42 p e * x e := by
  simp only [foldl_add_range, accumulate_add]
  rw [show ∑ e ∈ Finset.range 64, blockElement fl 42 p e * x e = _ from
    sum_range_mul 16 4 fun e => blockElement fl 42 p e * x e]
  simp only [Finset.mul_sum]
  refine Finset.sum_congr rfl fun j _ => Finset.sum_congr rfl fun k hk => ?_
  have hlt : k < 4 := Finset.mem_range.mp hk
  simp only [blockElement, elemQ2_0]
  rw [show (j * 4 + k) / 4 = j by omega, show (j * 4 + k) % 4 = k by omega, Nat.mul_comm k 2,
    kTern2_eq]
  ring

theorem dot_q1_0 :
    vgHalfToFloat fl (blockQ1_0 p).d * accumulate 16 (fun s j => (List.range 8).foldl (fun s k =>
        s + kSign ((((blockQ1_0 p).qs j).toNat >>> k) &&& 1) * x (j * 8 + k)) s) =
      ∑ e ∈ Finset.range 128, blockElement fl 41 p e * x e := by
  simp only [foldl_add_range, accumulate_add]
  rw [show ∑ e ∈ Finset.range 128, blockElement fl 41 p e * x e = _ from
    sum_range_mul 16 8 fun e => blockElement fl 41 p e * x e]
  simp only [Finset.mul_sum]
  refine Finset.sum_congr rfl fun j _ => Finset.sum_congr rfl fun k hk => ?_
  have hlt : k < 8 := Finset.mem_range.mp hk
  simp only [blockElement, elemQ1_0]
  rw [show (j * 8 + k) / 8 = j by omega, show (j * 8 + k) % 8 = k by omega, ← kSign_eq]
  ring

/-- Four accumulators side by side. -/
theorem foldl_add_four (n : Nat) (a b c d : Nat → K) (s : K × K × K × K) :
    (List.range n).foldl (fun s m => (s.1 + a m, s.2.1 + b m, s.2.2.1 + c m, s.2.2.2 + d m)) s =
      s + (∑ m ∈ Finset.range n, a m, ∑ m ∈ Finset.range n, b m, ∑ m ∈ Finset.range n, c m,
        ∑ m ∈ Finset.range n, d m) := by
  have h := foldl_add_range (fun m => (a m, b m, c m, d m)) n s
  rw [show (∑ m ∈ Finset.range n, a m, ∑ m ∈ Finset.range n, b m, ∑ m ∈ Finset.range n, c m,
    ∑ m ∈ Finset.range n, d m) = ∑ m ∈ Finset.range n, (a m, b m, c m, d m) by
      simp [Prod.ext_iff, Prod.fst_sum, Prod.snd_sum]]
  exact h

theorem dot_tq2_0 :
    let s : K × K × K × K := (List.range 2).foldl (fun s g => (List.range 32).foldl (fun s m =>
      (s.1 + kTern2 (((blockTq2_0 p).qs.plus (g * 32) m).toNat &&& 3) * x (g * 128 + m),
        s.2.1 + kTern2 ((((blockTq2_0 p).qs.plus (g * 32) m).toNat >>> 2) &&& 3) *
          x (g * 128 + (32 + m)),
        s.2.2.1 + kTern2 ((((blockTq2_0 p).qs.plus (g * 32) m).toNat >>> 4) &&& 3) *
          x (g * 128 + (64 + m)),
        s.2.2.2 + kTern2 ((((blockTq2_0 p).qs.plus (g * 32) m).toNat >>> 6) &&& 3) *
          x (g * 128 + (96 + m)))) s) (0, 0, 0, 0)
    vgHalfToFloat fl (blockTq2_0 p).d * ((s.1 + s.2.1) + (s.2.2.1 + s.2.2.2)) =
      ∑ e ∈ Finset.range 256, blockElement fl 35 p e * x e := by
  have hplanes : ∑ e ∈ Finset.range 256, blockElement fl 35 p e * x e = _ :=
    sum_planes 2 128 (fun g e => elemTq2_0 fl (blockTq2_0 p) g (e / 32) (e % 32)) x
  have hgroup : ∀ g, ∑ e ∈ Finset.range 128,
      elemTq2_0 fl (blockTq2_0 p) g (e / 32) (e % 32) * x (g * 128 + e) = _ := fun g =>
    sum_planes 4 32 (elemTq2_0 fl (blockTq2_0 p) g) fun e => x (g * 128 + e)
  rw [hplanes]
  simp only [hgroup]
  rw [show List.range 2 = [0, 1] from rfl]
  simp only [foldl_add_four, List.foldl_cons, List.foldl_nil, Prod.fst_add, Prod.snd_add,
    Finset.sum_range_succ _ 1, Finset.sum_range_succ _ 2, Finset.sum_range_succ _ 3,
    Finset.sum_range_one, zero_add]
  have hplane (g l : Nat) : vgHalfToFloat fl (blockTq2_0 p).d * ∑ m ∈ Finset.range 32,
      kTern2 ((((blockTq2_0 p).qs.plus (g * 32) m).toNat >>> (2 * l)) &&& 3) *
        x (g * 128 + (32 * l + m)) =
      ∑ m ∈ Finset.range 32, elemTq2_0 fl (blockTq2_0 p) g l m * x (g * 128 + (l * 32 + m)) := by
    rw [Finset.mul_sum]
    refine Finset.sum_congr rfl fun m _ => ?_
    simp only [elemTq2_0, kTern2_eq, Ptr.plus, Nat.mul_comm 2 l, Nat.mul_comm 32 l]
    ring
  simp only [← hplane]
  simp only [Nat.mul_zero, Nat.shiftRight_zero, Nat.zero_add, Nat.reduceMul]
  ring

/-- The five planes of a segment of `n` bytes of `qs`. -/
theorem dot_tq1_0_planes (n o : Nat) (xp : Nat → K) (d s : K) :
    d * (List.range n).foldl (fun s m =>
        s + (lut ((blockTq1_0 p).qs (o + m)) 0 : K) * xp m +
          (lut ((blockTq1_0 p).qs (o + m)) 1 : K) * xp (n + m) +
          (lut ((blockTq1_0 p).qs (o + m)) 2 : K) * xp (2 * n + m) +
          (lut ((blockTq1_0 p).qs (o + m)) 3 : K) * xp (3 * n + m) +
          (lut ((blockTq1_0 p).qs (o + m)) 4 : K) * xp (4 * n + m)) s =
      d * s + ∑ e ∈ Finset.range (5 * n),
        (((tq1Digit ((blockTq1_0 p).qs (o + e % n)) (e / n) : Int) - 1 : Int) : K) * d * xp e := by
  have hplanes : ∑ e ∈ Finset.range (5 * n), _ = _ := sum_planes 5 n (fun l m =>
    (((tq1Digit ((blockTq1_0 p).qs (o + m)) l : Int) - 1 : Int) : K) * d) xp
  rw [hplanes]
  simp only [add_assoc, foldl_add_range, Finset.sum_range_succ _ 4, Finset.sum_range_succ _ 3,
    Finset.sum_range_succ _ 2, Finset.sum_range_succ _ 1, Finset.sum_range_one, mul_add,
    Finset.mul_sum, ← Finset.sum_add_distrib]
  refine congrArg (d * s + ·) (Finset.sum_congr rfl fun m _ => ?_)
  simp only [lut_eq _ (show 0 < 5 by decide), lut_eq _ (show 1 < 5 by decide),
    lut_eq _ (show 2 < 5 by decide), lut_eq _ (show 3 < 5 by decide),
    lut_eq _ (show 4 < 5 by decide), Nat.zero_mul, Nat.zero_add, Nat.one_mul]
  ring

theorem dot_tq1_0 :
    vgHalfToFloat fl (blockTq1_0 p).d * (
      (List.range 4).foldl (fun s n => (List.range 4).foldl (fun s m =>
        s + (((tq1Digit ((blockTq1_0 p).qh m) n : Int) - 1 : Int) : K) * x (240 + n * 4 + m)) s)
      ((List.range 16).foldl (fun s m =>
        s + (lut ((blockTq1_0 p).qs (32 + m)) 0 : K) * x (160 + m) +
          (lut ((blockTq1_0 p).qs (32 + m)) 1 : K) * x (160 + (16 + m)) +
          (lut ((blockTq1_0 p).qs (32 + m)) 2 : K) * x (160 + (32 + m)) +
          (lut ((blockTq1_0 p).qs (32 + m)) 3 : K) * x (160 + (48 + m)) +
          (lut ((blockTq1_0 p).qs (32 + m)) 4 : K) * x (160 + (64 + m)))
      (accumulate 32 fun s m =>
        s + (lut ((blockTq1_0 p).qs m) 0 : K) * x m + (lut ((blockTq1_0 p).qs m) 1 : K) * x (32 + m) +
          (lut ((blockTq1_0 p).qs m) 2 : K) * x (64 + m) +
          (lut ((blockTq1_0 p).qs m) 3 : K) * x (96 + m) +
          (lut ((blockTq1_0 p).qs m) 4 : K) * x (128 + m)))) =
      ∑ e ∈ Finset.range 256, blockElement fl 34 p e * x e := by
  have hhead := dot_tq1_0_planes p 32 0 x (vgHalfToFloat fl (blockTq1_0 p).d) 0
  have hmid := dot_tq1_0_planes p 16 32 (fun e => x (160 + e)) (vgHalfToFloat fl (blockTq1_0 p).d)
  simp only [Nat.reduceMul, mul_zero, zero_add] at hhead hmid
  have htail := sum_planes 4 4 (fun n m =>
    (((tq1Digit ((blockTq1_0 p).qh m) n : Int) - 1 : Int) : K)) (fun e => x (240 + e))
  have hsegments : ∑ e ∈ Finset.range 256, blockElement fl 34 p e * x e =
      ∑ e ∈ Finset.range 160, blockElement fl 34 p e * x e +
        ∑ e ∈ Finset.range 80, blockElement fl 34 p (160 + e) * x (160 + e) +
        ∑ e ∈ Finset.range 16, blockElement fl 34 p (240 + e) * x (240 + e) := by
    rw [show 256 = 160 + 80 + 16 from rfl, Finset.sum_range_add, Finset.sum_range_add]
  simp only [foldl_add_range, mul_add, hmid, accumulate, hhead, Nat.add_assoc 240]
  rw [hsegments, ← htail, Finset.mul_sum]
  refine congrArg₂ (· + ·) (congrArg₂ (· + ·) (Finset.sum_congr rfl fun e he => ?_)
    (Finset.sum_congr rfl fun e he => ?_)) (Finset.sum_congr rfl fun e _ => ?_)
  · simp only [blockElement, elemTq1_0, if_pos (Finset.mem_range.mp he)]
  · have hlt : e < 80 := Finset.mem_range.mp he
    simp only [blockElement, elemTq1_0, if_neg (show ¬160 + e < 160 by omega),
      Nat.add_sub_cancel_left, if_pos hlt]
  · simp only [blockElement, elemTq1_0, if_neg (show ¬240 + e < 160 by omega),
      if_neg (show ¬240 + e - 160 < 80 by omega), show 240 + e - 160 - 80 = e by omega]
    ring

end Blocks

section Rows

variable {K : Type*} [CommRing K] {fl : Floats K}

/-- A kernel whose pass over a block adds the product with the block. -/
theorem dot_blocks (type : Nat) {qi : QuantInfo} (hscalar : scalarFn fl type = none)
    (hqi : quantInfo type = some qi) {inDim : Nat} (hdim : inDim % qi.blockSize = 0) (p : Ptr)
    (x : Nat → K) {pass : K → Nat → K}
    (hpass : ∀ acc b, pass acc b = acc + ∑ e ∈ Finset.range qi.blockSize,
      blockElement fl type (p.plus (b * qi.bytesPerBlock)) e * x (b * qi.blockSize + e)) :
    accumulate (inDim / qi.blockSize) pass =
      ∑ i ∈ Finset.range inDim, element fl type p i * x i := by
  have hall : inDim / qi.blockSize * qi.blockSize = inDim :=
    Nat.div_mul_cancel (Nat.dvd_of_mod_eq_zero hdim)
  rw [← hall, sum_elements hscalar hqi, hall, show pass = _ from funext₂ hpass, accumulate_add]

/-- The row of a kernel, as the product with the row that its type decodes. -/
def dotRow (fl : Floats K) (type : Nat) (qi : QuantInfo) (W : Ptr) (x : Nat → K) (inDim r : Nat) : K :=
  ∑ i ∈ Finset.range inDim,
    element fl type (W.plus (r * (inDim / qi.blockSize * qi.bytesPerBlock))) i * x i

variable {W : Ptr} {x : Nat → K} {inDim : Nat}

theorem rowsF32_dot {r0 r1 : Nat} :
    rowsF32 fl W x inDim r0 r1 = forRows r0 r1 (dotRow fl 0 ⟨0, 1, 4⟩ W x inDim) := by
  refine congrArg (forRows r0 r1) (funext fun r => ?_)
  dsimp only
  rw [accumulate_add, dotRow, Nat.div_one, Nat.mul_assoc]
  rfl

theorem rowsF16_dot {r0 r1 : Nat} :
    rowsF16 fl W x inDim r0 r1 = forRows r0 r1 (dotRow fl 1 ⟨1, 1, 2⟩ W x inDim) := by
  refine congrArg (forRows r0 r1) (funext fun r => ?_)
  dsimp only
  rw [accumulate_add, dotRow, Nat.div_one, Nat.mul_assoc]
  rfl

theorem rowsQ8_0_dot {r0 r1 : Nat} (hdim : inDim % 32 = 0) :
    rowsQ8_0 fl W x inDim r0 r1 = forRows r0 r1 (dotRow fl 8 ⟨8, 32, 34⟩ W x inDim) := by
  refine congrArg (forRows r0 r1) (funext fun r => ?_)
  rw [dotRow, ← Nat.mul_assoc]
  refine dot_blocks 8 rfl rfl hdim _ x fun acc b => ?_
  dsimp only
  rw [accumulate_add, dot_q8_0]

theorem rowQ4_0_dot (hdim : inDim % 32 = 0) :
    rowQ4_0 fl W x inDim = dotRow fl 2 ⟨2, 32, 18⟩ W x inDim := by
  funext r
  rw [dotRow, ← Nat.mul_assoc]
  refine dot_blocks 2 rfl rfl hdim _ x fun acc b => ?_
  rw [blockPassQ4_0, dot_q4_0]

theorem rowQ4_K_dot (hdim : inDim % 256 = 0) :
    rowQ4_K fl W x inDim = dotRow fl 12 ⟨12, 256, 144⟩ W x inDim := by
  funext r
  rw [dotRow, ← Nat.mul_assoc]
  refine dot_blocks 12 rfl rfl hdim _ x fun acc b => ?_
  rw [blockPassQ4_K, dot_q4_K]

theorem rowsQ6_K_dot {r0 r1 : Nat} (hdim : inDim % 256 = 0) :
    rowsQ6_K fl W x inDim r0 r1 = forRows r0 r1 (dotRow fl 14 ⟨14, 256, 210⟩ W x inDim) := by
  refine congrArg (forRows r0 r1) (funext fun r => ?_)
  rw [dotRow, ← Nat.mul_assoc]
  refine dot_blocks 14 rfl rfl hdim _ x fun acc b => ?_
  rw [← dot_q6_K]
  simp only [elemQ6_K, nibble]
  rfl

theorem rowsTq1_0_dot {r0 r1 : Nat} (hdim : inDim % 256 = 0) :
    rowsTq1_0 fl W x inDim r0 r1 = forRows r0 r1 (dotRow fl 34 ⟨34, 256, 54⟩ W x inDim) := by
  refine congrArg (forRows r0 r1) (funext fun r => ?_)
  rw [dotRow, ← Nat.mul_assoc]
  refine dot_blocks 34 rfl rfl hdim _ x fun acc b => ?_
  rw [← dot_tq1_0]

theorem rowsTq2_0_dot {r0 r1 : Nat} (hdim : inDim % 256 = 0) :
    rowsTq2_0 fl W x inDim r0 r1 = forRows r0 r1 (dotRow fl 35 ⟨35, 256, 66⟩ W x inDim) := by
  refine congrArg (forRows r0 r1) (funext fun r => ?_)
  rw [dotRow, ← Nat.mul_assoc]
  refine dot_blocks 35 rfl rfl hdim _ x fun acc b => ?_
  have hdot := @dot_tq2_0 K _ fl ((W.plus (r * (inDim / 256) * 66)).plus (b * 66))
    fun e => x (b * 256 + e)
  dsimp only at hdot ⊢
  rw [← hdot]

theorem rowsQ1_0_dot {r0 r1 : Nat} (hdim : inDim % 128 = 0) :
    rowsQ1_0 fl W x inDim r0 r1 = forRows r0 r1 (dotRow fl 41 ⟨41, 128, 18⟩ W x inDim) := by
  refine congrArg (forRows r0 r1) (funext fun r => ?_)
  rw [dotRow, ← Nat.mul_assoc]
  refine dot_blocks 41 rfl rfl hdim _ x fun acc b => ?_
  rw [← dot_q1_0]

theorem rowsQ2_0_dot {r0 r1 : Nat} (hdim : inDim % 64 = 0) :
    rowsQ2_0 fl W x inDim r0 r1 = forRows r0 r1 (dotRow fl 42 ⟨42, 64, 18⟩ W x inDim) := by
  refine congrArg (forRows r0 r1) (funext fun r => ?_)
  rw [dotRow, ← Nat.mul_assoc]
  refine dot_blocks 42 rfl rfl hdim _ x fun acc b => ?_
  rw [← dot_q2_0]

variable {type : Nat} {rows : RowFn K} {qi : QuantInfo}

theorem pickRows_dot (hrows : pickRows fl type = some rows) (hqi : quantInfo type = some qi)
    (hdim : inDim % qi.blockSize = 0) {r0 r1 fuel : Nat} (hr : r0 < r1) (hr1 : r1 < 2 ^ 32)
    (hends : ¬Overruns type (r0, r1)) (hfuel : r1 - r0 < fuel) :
    rows W x inDim fuel r0 r1 = some (forRows r0 r1 (dotRow fl type qi W x inDim)) := by
  have hodd : type = 2 ∨ type = 12 → r1 = 2 ^ 32 - 1 → (r1 - r0) % 2 = 1 := fun htype hmax =>
    Nat.mod_two_ne_zero.mp fun heven => hends ⟨htype, hr, hmax, heven⟩
  unfold pickRows at hrows
  split at hrows <;> cases hrows <;> cases hqi
  · exact congrArg some rowsF32_dot
  · exact congrArg some rowsF16_dot
  · exact congrArg some (rowsQ8_0_dot hdim)
  · rw [rowsQ4_0_eq fl W x inDim hr.le hr1 (hodd (.inl rfl)) hfuel, rowQ4_0_dot hdim]
  · rw [rowsQ4_K_eq fl W x inDim hr.le hr1 (hodd (.inr rfl)) hfuel, rowQ4_K_dot hdim]
  · exact congrArg some (rowsQ6_K_dot hdim)
  · exact congrArg some (rowsTq1_0_dot hdim)
  · exact congrArg some (rowsTq2_0_dot hdim)
  · exact congrArg some (rowsQ1_0_dot hdim)
  · exact congrArg some (rowsQ2_0_dot hdim)

theorem pickRows_supported (hrows : pickRows fl type = some rows) (hqi : quantInfo type = some qi) :
    supportedScalar qi = true := by
  unfold pickRows at hrows
  split at hrows <;> cases hrows <;> cases hqi <;> rfl

/-- A row of whole blocks is decoded. -/
theorem rowStatus_ok (hqi : quantInfo type = some qi) (hs : supportedScalar qi = true)
    (hpos : 0 < inDim) (hin : inDim < 2 ^ 32) (hdim : inDim % qi.blockSize = 0) :
    rowStatus type (inDim / qi.blockSize * qi.bytesPerBlock) inDim = .ok := by
  have hsmall : ∀ q ∈ quantTable, q.bytesPerBlock < 2 ^ 32 := by decide
  have hbytes := hsmall qi (List.mem_of_find?_eq_some hqi)
  have hroom : ¬(2 ^ 64 - 1) / qi.bytesPerBlock < inDim / qi.blockSize := by
    rw [Nat.not_lt, Nat.le_div_iff_mul_le (quantInfo_positive hqi).2]
    have hle : inDim / qi.blockSize ≤ 2 ^ 32 - 1 := (Nat.div_le_self _ _).trans (by omega)
    exact (Nat.mul_le_mul hle (Nat.le_sub_one_of_lt hbytes)).trans (by decide)
  have hvalid : vgQuantValidate type inDim (inDim / qi.blockSize * qi.bytesPerBlock) = .ok := by
    rw [vgQuantValidate, hqi]
    simp only [hdim, hpos.ne', ne_eq, not_true_eq_false, or_self, if_false, hroom, if_true]
  rw [rowStatus, if_neg hpos.ne', if_neg (not_not.mpr hvalid), hqi, Option.any_some, hs, if_pos rfl]

/-- The product with the row that `vg_dequantize_row` writes. -/
theorem dotRow_eq (hrows : pickRows fl type = some rows) (hqi : quantInfo type = some qi)
    (hin : inDim < 2 ^ 32) (hdim : inDim % qi.blockSize = 0) (out : Nat → K) (r : Nat) :
    dotRow fl type qi W x inDim r = ∑ i ∈ Finset.range inDim,
      (vgDequantizeRow fl type (W.plus (r * (inDim / qi.blockSize * qi.bytesPerBlock)))
        (inDim / qi.blockSize * qi.bytesPerBlock) out inDim).2 i * x i := by
  refine Finset.sum_congr rfl fun i hi => ?_
  have hlt : i < inDim := Finset.mem_range.mp hi
  have hok := rowStatus_ok hqi (pickRows_supported hrows hqi) (Nat.zero_lt_of_lt hlt) hin hdim
  rw [vgDequantizeRow_eq]
  dsimp only
  rw [if_pos ⟨hok, hlt⟩]

/-- A fused kernel computes in each row of its range the product with the decoded row, where its loop
ends. -/
theorem fused_dot_iff (hrows : pickRows fl type = some rows) (hqi : quantInfo type = some qi)
    (W : Ptr) (x y out : Nat → K) {inDim : Nat} (hin : inDim < 2 ^ 32)
    (hdim : inDim % qi.blockSize = 0) {r0 r1 r : Nat} (hr0 : r0 ≤ r) (hr : r < r1)
    (hr1 : r1 < 2 ^ 32) :
    (∃ fuel stores, rows W x inDim fuel r0 r1 = some stores ∧
      storeAll y stores r = ∑ i ∈ Finset.range inDim,
        (vgDequantizeRow fl type (W.plus (r * (inDim / qi.blockSize * qi.bytesPerBlock)))
          (inDim / qi.blockSize * qi.bytesPerBlock) out inDim).2 i * x i) ↔
      ¬Overruns type (r0, r1) := by
  constructor
  · rintro ⟨fuel, stores, hstores, -⟩ hover
    rw [pickRows_overruns fl W x inDim hrows hover fuel] at hstores
    cases hstores
  · intro hends
    refine ⟨r1 - r0 + 1, _, pickRows_dot hrows hqi hdim (hr0.trans_lt hr) hr1 hends (by omega), ?_⟩
    rw [storeAll_forRows, if_pos ⟨hr0, hr⟩, dotRow_eq hrows hqi hin hdim out]

theorem fused_dot_iff_q4_K :
    ∃ fuel stores, rowsQ4_K exactFloats 0 1 256 fuel 1 4 = some stores ∧
      storeAll 0 stores 3 = ∑ i ∈ Finset.range 256,
        (vgDequantizeRow exactFloats 12 (Ptr.plus 0 (3 * 144)) 144 0 256).2 i * (1 : Nat → ℚ) i :=
  (@fused_dot_iff ℚ _ exactFloats 12 _ _ rfl rfl 0 1 0 0 256 (by decide) (by decide) 1 4 3 (by decide)
    (by decide) (by decide)).mpr (by decide)

/-- The range starts at an odd row and ends at the last `uint32_t`, and the loop never does. -/
theorem oddStart_no_product : ¬ ∃ fuel stores,
    rowsQ4_0 exactFloats 0 0 32 fuel 1 (2 ^ 32 - 1) = some stores ∧
      storeAll 0 stores 1 = ∑ i ∈ Finset.range 32,
        (vgDequantizeRow exactFloats 2 (Ptr.plus 0 (1 * 18)) 18 0 32).2 i * (0 : Nat → ℚ) i := by
  rintro ⟨fuel, stores, hstores, -⟩
  have hrows : pickRows exactFloats 2 = some (rowsQ4_0 exactFloats) := rfl
  rw [pickRows_overruns exactFloats 0 0 32 hrows (by decide)] at hstores
  cases hstores

end Rows

end VgEngine.Quant
