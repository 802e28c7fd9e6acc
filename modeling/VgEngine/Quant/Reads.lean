import VgEngine.Quant.Packing
import Mathlib.Tactic.IntervalCases
import Mathlib.Tactic.LinearCombination

/-! What the decoders read: every scale, minimum and code at its standard position, except for
the fifth bits of the upper half of a block of Q5_0 or Q5_1. -/
namespace VgEngine.Quant
open VgEngine.Lib VgEngine.Gguf VgEngine.Bytes

section Bits

variable {m : Ptr}

theorem readBits_runs {a s n : Nat} (h : s + n ≤ 8) :
    readBits m (run a s n) = (m a).toNat / 2 ^ s % 2 ^ n := readBits_run h

@[simp] theorem length_run (a s n : Nat) : (run a s n).length = n := by simp [run]

theorem u16_eq (m : Ptr) (o : Nat) : m.u16 o = UInt16.ofNat (readBits m (run o 0 16)) := by
  rw [run, Nat.add_zero, readBits_word, Ptr.u16]
  rfl

theorem shift_and (b s n : Nat) : (b >>> s) &&& (2 ^ n - 1) = b / 2 ^ s % 2 ^ n := by
  rw [Nat.and_two_pow_sub_one_eq_mod, Nat.shiftRight_eq_div_pow]

/-- The bits that `|` puts above `k` bits. -/
theorem or_shiftLeft {a k : Nat} (h : a < 2 ^ k) (b : Nat) : a ||| b <<< k = a + 2 ^ k * b := by
  rw [Nat.or_comm, ← Nat.shiftLeft_add_eq_or_of_lt h, Nat.shiftLeft_eq]
  ring

theorem nibble_eq {h : Nat} (hh : h < 2) (b : UInt8) :
    nibble h b = b.toNat / 2 ^ (4 * h) % 2 ^ 4 := by
  have hb : b.toNat < 256 := b.toNat_lt
  interval_cases h
  · simpa [nibble] using shift_and b.toNat 0 4
  · simp only [nibble, Nat.shiftRight_eq_div_pow]
    omega

theorem int8_eq (b : UInt8) : int8 b = signed8 b.toNat := by
  have hb : b.toNat < 256 := b.toNat_lt
  have h : int8 b = b.toBitVec.toInt := rfl
  rw [h, BitVec.toInt_eq_toNat_cond, signed8]
  have hbits : b.toBitVec.toNat = b.toNat := rfl
  simp only [hbits]
  split_ifs <;> omega

end Bits

section Words

variable {p : Ptr} {o k i : Nat} {s : UInt32}

theorem kmask2_byte : ∀ k < 4, ∀ i < 8,
    (0x0F0F0F0F : Nat).testBit (8 * k + i) = decide (i < 4) := by decide

theorem kmask1_byte : ∀ k < 4, ∀ i < 8,
    (0x03030303 : Nat).testBit (8 * k + i) = decide (i < 2) := by decide

/-- A byte of a little-endian word. -/
theorem u32_byte (p : Ptr) (o : Nat) {k i : Nat} (hk : k < 4) (hi : i < 8) :
    (p.u32 o).toNat.testBit (8 * k + i) = (p (o + k)).toNat.testBit i := by
  have hlt : leNat [p o, p (o + 1), p (o + 2), p (o + 3)] < 2 ^ 32 := by
    simpa using leNat_lt [p o, p (o + 1), p (o + 2), p (o + 3)]
  rw [Ptr.u32, UInt32.toNat_ofNat', Nat.mod_eq_of_lt hlt, testBit_leNat _ k hi]
  interval_cases k <;> rfl


theorem kmask2_bit (hs : s.toNat ≤ 4) (hk : k < 4) (hi : i < 8) :
    ((p.u32 o >>> s) &&& 0x0F0F0F0F).toNat.testBit (8 * k + i) =
      (decide (i < 4) && (p (o + k)).toNat.testBit (s.toNat + i)) := by
  rw [UInt32.toNat_and, UInt32.toNat_shiftRight, Nat.mod_eq_of_lt (by omega), Nat.testBit_and,
    Nat.testBit_shiftRight, show (0x0F0F0F0F : UInt32).toNat = 0x0F0F0F0F from rfl,
    kmask2_byte k hk i hi, Bool.and_comm]
  by_cases h : i < 4
  · rw [← u32_byte p o hk (show s.toNat + i < 8 by omega),
      show 8 * k + (s.toNat + i) = s.toNat + (8 * k + i) by omega]
  · simp [h]

theorem kmask1_bit (hs : s.toNat ≤ 6) (hk : k < 4) (hi : i < 8) :
    (((p.u32 o >>> s) &&& 0x03030303) <<< (4 : UInt32)).toNat.testBit (8 * k + i) =
      (decide (4 ≤ i ∧ i < 6) && (p (o + k)).toNat.testBit (s.toNat + (i - 4))) := by
  rw [UInt32.toNat_shiftLeft, UInt32.toNat_and, UInt32.toNat_shiftRight,
    Nat.mod_eq_of_lt (show s.toNat < 32 by omega), Nat.testBit_mod_two_pow,
    show (4 : UInt32).toNat % 32 = 4 from rfl, Nat.testBit_shiftLeft, Nat.testBit_and,
    Nat.testBit_shiftRight, show (0x03030303 : UInt32).toNat = 0x03030303 from rfl]
  by_cases hlow : i < 4
  · have hmask : 4 ≤ 8 * k + i → (0x03030303 : Nat).testBit (8 * k + i - 4) = false := by
      intro hle
      rw [show 8 * k + i - 4 = 8 * (k - 1) + (i + 4) by omega,
        kmask1_byte (k - 1) (by omega) (i + 4) (by omega)]
      simp
    by_cases hle : 4 ≤ 8 * k + i
    · simp [hmask hle, hlow]
    · simp [hle, hlow]
  · rw [show 8 * k + i - 4 = 8 * k + (i - 4) by omega, kmask1_byte k hk (i - 4) (by omega)]
    by_cases h : i < 6
    · rw [← u32_byte p o hk (show s.toNat + (i - 4) < 8 by omega),
        show 8 * k + (s.toNat + (i - 4)) = s.toNat + (8 * k + (i - 4)) by omega]
      simp [show 8 * k + i < 32 by omega, show 4 ≤ 8 * k + i by omega, show i - 4 < 2 by omega, h,
        show 4 ≤ i by omega]
    · simp [h, show ¬ i - 4 < 2 by omega]

/-- A scale of `deq_q3_k`: four bits from one byte and two from another. -/
theorem unpacked_byte {t : UInt32} (hs : s.toNat ≤ 4) (ht : t.toNat ≤ 6) (hk : k < 4) :
    (UInt8.ofNat ((((p.u32 o >>> s) &&& 0x0F0F0F0F) |||
      ((p.u32 8 >>> t) &&& 0x03030303) <<< (4 : UInt32)).toNat >>> (8 * k))).toNat =
        (p (o + k)).toNat / 2 ^ s.toNat % 2 ^ 4 +
          2 ^ 4 * ((p (8 + k)).toNat / 2 ^ t.toNat % 2 ^ 2) := by
  apply Nat.eq_of_testBit_eq
  intro i
  rw [UInt8.toNat_ofNat', Nat.testBit_mod_two_pow, Nat.testBit_shiftRight, Nat.add_comm (_ % _),
    Nat.testBit_two_pow_mul_add _ (Nat.mod_lt _ (by decide)), UInt32.toNat_or, Nat.testBit_or]
  simp only [Nat.testBit_mod_two_pow, Nat.testBit_div_two_pow]
  by_cases hi : i < 8
  · rw [kmask2_bit hs hk hi, kmask1_bit ht hk hi]
    by_cases hlow : i < 4
    · simp [hi, hlow, Nat.add_comm]
    · by_cases h : i < 6
      · simp [hi, hlow, h, show 4 ≤ i by omega, show i - 4 < 2 by omega, Nat.add_comm]
      · simp [hlow, h, show ¬ i - 4 < 2 by omega]
  · simp [hi, show ¬ i < 4 by omega, show ¬ i - 4 < 2 by omega]

end Words

section Reading

variable {K : Type*} [CommRing K] {fl : Floats K} {m : Ptr} {e : Nat}

/-- Scale times code plus offset. -/
def scaled (fl : Floats K) (f : Format) (d m : UInt16) (scale min code : Nat) : K :=
  vgHalfToFloat fl d * (f.scaleOf scale : K) * (f.codeOf code : K) +
    vgHalfToFloat fl m * (f.minOf min : K)

/-- The element `e` from the numbers at the standard positions. -/
def reading (fl : Floats K) (f : Format) (m : Ptr) (e : Nat) : K :=
  scaled fl f (UInt16.ofNat (readBits m f.dPos)) (UInt16.ofNat (readBits m f.mPos))
    (readBits m (f.scalePos (f.group e))) (readBits m (f.minPos (f.group e)))
    (readBits m (f.codePos e))

theorem reads_q4_0 (he : e < 32) : blockElement fl 2 m e = reading fl q4_0 m e := by
  have hcode : nibble (e / 16) ((blockQ4_0 m).qs (e % 16)) = readBits m (q4_0.codePos e) := by
    rw [show readBits m (q4_0.codePos e) = _ from readBits_runs (by omega)]
    exact nibble_eq (by omega) _
  have hd : (blockQ4_0 m).d = UInt16.ofNat (readBits m q4_0.dPos) := u16_eq m 0
  simp only [blockElement, elemQ4_0, reading, scaled, hcode, hd]
  simp only [q4_0, Int.cast_one, Int.cast_zero]
  ring

theorem reads_q4_1 (he : e < 32) : blockElement fl 3 m e = reading fl q4_1 m e := by
  have hcode : nibble (e / 16) ((blockQ4_1 m).qs (e % 16)) = readBits m (q4_1.codePos e) := by
    rw [show readBits m (q4_1.codePos e) = _ from readBits_runs (by omega)]
    exact nibble_eq (by omega) _
  have hd : (blockQ4_1 m).d = UInt16.ofNat (readBits m q4_1.dPos) := u16_eq m 0
  have hm : (blockQ4_1 m).m = UInt16.ofNat (readBits m q4_1.mPos) := u16_eq m 2
  simp only [blockElement, elemQ4_1, reading, scaled, hcode, hd, hm, ofUnsigned]
  simp only [q4_1, Int.cast_one]
  ring

theorem reads_q8_0 : blockElement fl 8 m e = reading fl q8_0 m e := by
  have hcode : int8 ((blockQ8_0 m).qs e) = signed8 (readBits m (q8_0.codePos e)) := by
    rw [int8_eq, show readBits m (q8_0.codePos e) = _ from readBits_runs (by omega)]
    have hb : (m (2 + e)).toNat < 256 := (m (2 + e)).toNat_lt
    exact congrArg signed8 (show (m (2 + e)).toNat = _ by omega)
  have hd : (blockQ8_0 m).d = UInt16.ofNat (readBits m q8_0.dPos) := u16_eq m 0
  simp only [blockElement, reading, scaled, hcode, hd]
  simp only [q8_0, Int.cast_one, Int.cast_zero]
  ring

theorem reads_q2_K : blockElement fl 10 m e = reading fl q2_K m e := by
  have hcode : (((blockQ2_K m).qs.plus (e / 128 * 32)
      (e % 128 % 32 % 16 + 16 * (e % 128 % 32 / 16))).toNat >>> (2 * (e % 128 / 32))) &&& 3 =
        readBits m (q2_K.codePos e) := by
    rw [show readBits m (q2_K.codePos e) = _ from readBits_runs (by omega)]
    rw [show (blockQ2_K m).qs.plus (e / 128 * 32)
      (e % 128 % 32 % 16 + 16 * (e % 128 % 32 / 16)) = m (16 + 32 * (e / 128) + e % 32) from
        congrArg m (by omega)]
    exact shift_and _ _ 2
  have hgroup : e / 128 * 8 + 2 * (e % 128 / 32) + e % 128 % 32 / 16 = e / 16 := by omega
  have hscale : (m (e / 16)).toNat &&& 0x0F = readBits m (q2_K.scalePos (q2_K.group e)) := by
    rw [show readBits m (q2_K.scalePos (q2_K.group e)) = _ from readBits_runs (by omega)]
    exact shift_and _ 0 4
  have hmin : (m (e / 16)).toNat >>> 4 = readBits m (q2_K.minPos (q2_K.group e)) := by
    have hb : (m (e / 16)).toNat < 256 := (m (e / 16)).toNat_lt
    rw [show readBits m (q2_K.minPos (q2_K.group e)) = _ from readBits_runs (by omega),
      Nat.shiftRight_eq_div_pow, show q2_K.group e = e / 16 from rfl]
    omega
  have hd : (blockQ2_K m).d = UInt16.ofNat (readBits m q2_K.dPos) := u16_eq m 80
  have hm : (blockQ2_K m).dmin = UInt16.ofNat (readBits m q2_K.mPos) := u16_eq m 82
  simp only [blockElement, elemQ2_K, reading, scaled, hgroup, hcode, hd, hm, ofUnsigned]
  rw [show (blockQ2_K m).scales = m from rfl, hscale, hmin]
  simp only [q2_K, Int.cast_neg]
  ring

theorem reads_tq2_0 : blockElement fl 35 m e = reading fl tq2_0 m e := by
  have hcode : (((blockTq2_0 m).qs (e / 128 * 32 + e % 128 % 32)).toNat >>>
      (e % 128 / 32 * 2)) &&& 3 = readBits m (tq2_0.codePos e) := by
    rw [show readBits m (tq2_0.codePos e) = _ from readBits_runs (by omega),
      show (blockTq2_0 m).qs (e / 128 * 32 + e % 128 % 32) = m (32 * (e / 128) + e % 32) from
        congrArg m (by omega), Nat.mul_comm (e % 128 / 32) 2]
    exact shift_and _ _ 2
  have hd : (blockTq2_0 m).d = UInt16.ofNat (readBits m tq2_0.dPos) := u16_eq m 64
  simp only [blockElement, elemTq2_0, reading, scaled, hcode, hd]
  simp only [tq2_0, Int.cast_one, Int.cast_zero]
  ring

theorem reads_q1_0 : blockElement fl 41 m e = reading fl q1_0 m e := by
  have hcode : (((blockQ1_0 m).qs (e / 8)).toNat >>> (e % 8)) &&& 1 =
      readBits m (q1_0.codePos e) := by
    rw [show readBits m (q1_0.codePos e) = _ from readBits_runs (by omega)]
    exact shift_and _ _ 1
  have hbit : readBits m (q1_0.codePos e) = 0 ∨ readBits m (q1_0.codePos e) = 1 := by
    have hlt : readBits m (q1_0.codePos e) < 2 := readBits_lt (q1_0.codePos e)
    omega
  have hd : (blockQ1_0 m).d = UInt16.ofNat (readBits m q1_0.dPos) := u16_eq m 0
  simp only [blockElement, elemQ1_0, reading, scaled, hcode, hd]
  rcases hbit with hbit | hbit <;> rw [hbit] <;> simp [q1_0]

theorem reads_q2_0 : blockElement fl 42 m e = reading fl q2_0 m e := by
  have hcode : (((blockQ2_0 m).qs (e / 4)).toNat >>> (e % 4 * 2)) &&& 3 =
      readBits m (q2_0.codePos e) := by
    rw [show readBits m (q2_0.codePos e) = _ from readBits_runs (by omega),
      Nat.mul_comm (e % 4) 2]
    exact shift_and _ _ 2
  have hd : (blockQ2_0 m).d = UInt16.ofNat (readBits m q2_0.dPos) := u16_eq m 0
  simp only [blockElement, elemQ2_0, reading, scaled, hcode, hd]
  simp only [q2_0, Int.cast_one, Int.cast_zero]
  ring

theorem getScaleMinK4_scale {g : Nat} (hg : g < 8) :
    (getScaleMinK4 g (m.plus 4)).1 = readBits m (scaleK4 4 g) := by
  unfold getScaleMinK4 scaleK4
  split_ifs with h
  · rw [readBits_runs (by omega)]
    exact shift_and _ 0 6
  · have hhigh : (m.plus 4 (g - 4)).toNat < 256 := (m.plus 4 (g - 4)).toNat_lt
    rw [readBits_append, readBits_runs (by omega), readBits_runs (by omega), length_run,
      show m.plus 4 (g + 4) = m (4 + g + 4) from congrArg m (by omega),
      show 4 + g - 4 = 4 + (g - 4) by omega]
    dsimp only
    rw [or_shiftLeft (Nat.and_lt_two_pow _ (by decide : 0x0F < 2 ^ 4)),
      show (m (4 + g + 4)).toNat &&& 0x0F = _ from shift_and _ 0 4, Nat.shiftRight_eq_div_pow]
    refine congrArg _ (congrArg _ ?_)
    exact (Nat.mod_eq_of_lt (by omega)).symm

theorem getScaleMinK4_min (g : Nat) :
    (getScaleMinK4 g (m.plus 4)).2 = readBits m (minK4 4 g) := by
  unfold getScaleMinK4 minK4
  split_ifs with h
  · rw [readBits_runs (by omega), show m.plus 4 (g + 4) = m (4 + g + 4) from congrArg m (by omega)]
    exact shift_and _ 0 6
  · have hlow : (m (4 + g + 4)).toNat < 256 := (m (4 + g + 4)).toNat_lt
    have hhigh : (m (4 + g)).toNat < 256 := (m (4 + g)).toNat_lt
    rw [readBits_append, readBits_runs (by omega), readBits_runs (by omega), length_run,
      show m.plus 4 (g + 4) = m (4 + g + 4) from congrArg m (by omega)]
    dsimp only
    rw [Nat.shiftRight_eq_div_pow, or_shiftLeft (by omega), Nat.shiftRight_eq_div_pow,
      show m.plus 4 g = m (4 + g) from rfl]
    omega

theorem reads_q4_K (he : e < 256) : blockElement fl 12 m e = reading fl q4_K m e := by
  have hcode : nibble (e % 64 / 32) ((blockQ4_K m).qs.plus (e / 64 * 32) (e % 64 % 32)) =
      readBits m (q4_K.codePos e) := by
    rw [show readBits m (q4_K.codePos e) = _ from readBits_runs (by omega),
      show (blockQ4_K m).qs.plus (e / 64 * 32) (e % 64 % 32) =
        m (16 + 32 * (e / 64) + e % 32) from congrArg m (by omega)]
    exact nibble_eq (by omega) _
  have hgroup : 2 * (e / 64) + e % 64 / 32 = q4_K.group e :=
    show 2 * (e / 64) + e % 64 / 32 = e / 32 by omega
  have hlt : q4_K.group e < 8 := show e / 32 < 8 by omega
  have hscale := getScaleMinK4_scale (m := m) hlt
  have hmin := getScaleMinK4_min (m := m) (q4_K.group e)
  have hd : (blockQ4_K m).d = UInt16.ofNat (readBits m q4_K.dPos) := u16_eq m 0
  have hm : (blockQ4_K m).dmin = UInt16.ofNat (readBits m q4_K.mPos) := u16_eq m 2
  simp only [blockElement, elemQ4_K, reading, scaled, hgroup, hcode, hd, hm, ofUnsigned]
  rw [show (blockQ4_K m).scales = m.plus 4 from rfl, hscale, hmin]
  simp only [q4_K, Int.cast_neg]
  ring

/-- The test of one bit, as the number that the bit is. -/
theorem bit_test (b t : Nat) :
    (if b &&& 1 <<< t ≠ 0 then 1 else 0) = b / 2 ^ t % 2 ^ 1 := by
  rw [Nat.shiftLeft_eq, Nat.one_mul, Nat.and_two_pow, pow_one, ← Nat.toNat_testBit]
  cases b.testBit t <;> simp

theorem reads_q5_K (he : e < 256) : blockElement fl 13 m e = reading fl q5_K m e := by
  have hu : 2 * (e / 64) + e % 64 / 32 = e / 32 := by omega
  have hlow : nibble (e % 64 / 32) ((blockQ5_K m).qs.plus (e / 64 * 32) (e % 64 % 32)) =
      (m (48 + 32 * (e / 64) + e % 32)).toNat / 2 ^ (4 * (e % 64 / 32)) % 2 ^ 4 := by
    rw [show (blockQ5_K m).qs.plus (e / 64 * 32) (e % 64 % 32) =
        m (48 + 32 * (e / 64) + e % 32) from congrArg m (by omega)]
    exact nibble_eq (by omega) _
  have hqh : (blockQ5_K m).qh (e % 64 % 32) = m (16 + e % 32) := congrArg m (by omega)
  have hcode : nibble (e % 64 / 32) ((blockQ5_K m).qs.plus (e / 64 * 32) (e % 64 % 32)) +
      (if (m (16 + e % 32)).toNat &&& 1 <<< (e / 32) ≠ 0 then 16 else 0) =
        readBits m (q5_K.codePos e) := by
    rw [show readBits m (q5_K.codePos e) = _ from readBits_append _ _, readBits_runs (by omega),
      readBits_runs (by omega), length_run, hlow]
    rw [← bit_test]
    split_ifs <;> rfl
  have hlt : q5_K.group e < 8 := show e / 32 < 8 by omega
  have hscale := getScaleMinK4_scale (m := m) hlt
  have hmin := getScaleMinK4_min (m := m) (q5_K.group e)
  have hd : (blockQ5_K m).d = UInt16.ofNat (readBits m q5_K.dPos) := u16_eq m 0
  have hm : (blockQ5_K m).dmin = UInt16.ofNat (readBits m q5_K.mPos) := u16_eq m 2
  simp only [blockElement, elemQ5_K, reading, scaled, hu, hqh, hcode, hd, hm, ofUnsigned]
  rw [show (blockQ5_K m).scales = m.plus 4 from rfl, show e / 32 = q5_K.group e from rfl, hscale,
    hmin]
  simp only [q5_K, Int.cast_neg]
  ring

theorem reads_q6_K : blockElement fl 14 m e = reading fl q6_K m e := by
  have hlow : nibble (e % 128 / 32 / 2)
      ((blockQ6_K m).ql.plus (e / 128 * 64) (e % 128 % 32 + 32 * (e % 128 / 32 % 2))) =
        (m (64 * (e / 128) + e % 64)).toNat / 2 ^ (4 * (e % 128 / 64)) % 2 ^ 4 := by
    rw [show (blockQ6_K m).ql.plus (e / 128 * 64) (e % 128 % 32 + 32 * (e % 128 / 32 % 2)) =
        m (64 * (e / 128) + e % 64) from congrArg m (by omega),
      show e % 128 / 32 / 2 = e % 128 / 64 by omega]
    exact nibble_eq (by omega) _
  have hhigh : (((blockQ6_K m).qh.plus (e / 128 * 32) (e % 128 % 32)).toNat >>>
      (2 * (e % 128 / 32))) &&& 3 =
        (m (128 + 32 * (e / 128) + e % 32)).toNat / 2 ^ (2 * (e % 128 / 32)) % 2 ^ 2 := by
    rw [show (blockQ6_K m).qh.plus (e / 128 * 32) (e % 128 % 32) =
        m (128 + 32 * (e / 128) + e % 32) from congrArg m (by omega)]
    exact shift_and _ _ 2
  have hcode : nibble (e % 128 / 32 / 2)
      ((blockQ6_K m).ql.plus (e / 128 * 64) (e % 128 % 32 + 32 * (e % 128 / 32 % 2))) |||
        ((((blockQ6_K m).qh.plus (e / 128 * 32) (e % 128 % 32)).toNat >>>
          (2 * (e % 128 / 32))) &&& 3) <<< 4 = readBits m (q6_K.codePos e) := by
    rw [hlow, hhigh, or_shiftLeft (Nat.mod_lt _ (by decide)),
      show readBits m (q6_K.codePos e) = _ from readBits_append _ _, readBits_runs (by omega),
      readBits_runs (by omega), length_run]
  have hscale : int8 ((blockQ6_K m).scales.plus (e / 128 * 8)
      (e % 128 % 32 / 16 + 2 * (e % 128 / 32))) =
        signed8 (readBits m (q6_K.scalePos (q6_K.group e))) := by
    have hb : (m (192 + e / 16)).toNat < 256 := (m (192 + e / 16)).toNat_lt
    rw [int8_eq, show readBits m (q6_K.scalePos (q6_K.group e)) = _ from readBits_runs (by omega),
      show (blockQ6_K m).scales.plus (e / 128 * 8) (e % 128 % 32 / 16 + 2 * (e % 128 / 32)) =
        m (192 + e / 16) from congrArg m (by omega)]
    exact congrArg signed8 (show (m (192 + e / 16)).toNat = _ by
      rw [show q6_K.group e = e / 16 from rfl]
      omega)
  have hd : (blockQ6_K m).d = UInt16.ofNat (readBits m q6_K.dPos) := u16_eq m 208
  simp only [blockElement, elemQ6_K, reading, scaled, hcode, hscale, hd]
  simp only [q6_K, Int.cast_zero]
  ring

theorem scalesQ3_K_eq {g : Nat} (hg : g < 16) :
    scalesQ3_K (m.plus 96) g = readBits m (q3_K.scalePos g) - 32 := by
  have hread : readBits m (q3_K.scalePos g) = (m (96 + g % 8)).toNat / 2 ^ (4 * (g / 8)) % 2 ^ 4 +
      2 ^ 4 * ((m (104 + g % 4)).toNat / 2 ^ (2 * (g / 4)) % 2 ^ 2) := by
    rw [show readBits m (q3_K.scalePos g) = _ from readBits_append _ _, readBits_runs (by omega),
      readBits_runs (by omega), length_run]
  have hsigned : ∀ b : UInt8, b.toNat = readBits m (q3_K.scalePos g) →
      int8 b = readBits m (q3_K.scalePos g) := by
    intro b hb
    have hlt : readBits m (q3_K.scalePos g) < 2 ^ 6 := readBits_lt (q3_K.scalePos g)
    rw [int8_eq, hb, signed8, if_pos (by omega)]
  have hk : g % 4 < 4 := Nat.mod_lt g (by decide)
  rw [scalesQ3_K]
  refine congrArg (· - 32) (hsigned _ ?_)
  rw [hread]
  have hquarter : g / 4 = 0 ∨ g / 4 = 1 ∨ g / 4 = 2 ∨ g / 4 = 3 := by omega
  rcases hquarter with h | h | h | h
  · have hbyte := unpacked_byte (p := m.plus 96) (o := 0) (s := 0) (t := 0) (by decide) (by decide) hk
    rw [UInt32.shiftRight_zero] at hbyte
    rw [if_pos h, hbyte, show g / 8 = 0 by omega, show g % 8 = 0 + g % 4 by omega, h]
    simp [Ptr.plus, ← Nat.add_assoc]
  · have hbyte := unpacked_byte (p := m.plus 96) (o := 4) (s := 0) (t := 2) (by decide) (by decide) hk
    rw [UInt32.shiftRight_zero] at hbyte
    rw [if_neg (by omega), if_pos h, hbyte, show g / 8 = 0 by omega,
      show g % 8 = 4 + g % 4 by omega, h]
    simp [Ptr.plus, ← Nat.add_assoc]
  · have hbyte := unpacked_byte (p := m.plus 96) (o := 0) (s := 4) (t := 4) (by decide) (by decide) hk
    rw [if_neg (by omega), if_neg (by omega), if_pos h, hbyte, show g / 8 = 1 by omega,
      show g % 8 = 0 + g % 4 by omega, h]
    simp [Ptr.plus, ← Nat.add_assoc]
  · have hbyte := unpacked_byte (p := m.plus 96) (o := 4) (s := 4) (t := 6) (by decide) (by decide) hk
    rw [if_neg (by omega), if_neg (by omega), if_neg (by omega), hbyte, show g / 8 = 1 by omega,
      show g % 8 = 4 + g % 4 by omega, h]
    simp [Ptr.plus, ← Nat.add_assoc]

theorem reads_q3_K (he : e < 256) : blockElement fl 11 m e = reading fl q3_K m e := by
  have hlow : ((blockQ3_K m).qs.plus (e / 128 * 32)
      (e % 128 % 32 % 16 + 16 * (e % 128 % 32 / 16))).toNat >>> (2 * (e % 128 / 32)) &&& 3 =
        (m (32 + 32 * (e / 128) + e % 32)).toNat / 2 ^ (2 * (e % 128 / 32)) % 2 ^ 2 := by
    rw [show (blockQ3_K m).qs.plus (e / 128 * 32)
      (e % 128 % 32 % 16 + 16 * (e % 128 % 32 / 16)) = m (32 + 32 * (e / 128) + e % 32) from
        congrArg m (by omega)]
    exact shift_and _ _ 2
  have hhm : (blockQ3_K m).hmask (e % 128 % 32 % 16 + 16 * (e % 128 % 32 / 16)) = m (e % 32) :=
    congrArg m (by omega)
  have hbit : e / 128 * 4 + e % 128 / 32 = e / 32 := by omega
  have hcode : (readBits m (q3_K.codePos e) : Int) =
      ((m (32 + 32 * (e / 128) + e % 32)).toNat / 2 ^ (2 * (e % 128 / 32)) % 2 ^ 2 : Nat) -
        (if (m (e % 32)).toNat &&& 1 <<< (e / 32) ≠ 0 then 0 else 4) + 4 := by
    rw [show readBits m (q3_K.codePos e) = _ from readBits_append _ _, readBits_runs (by omega),
      readBits_runs (by omega), length_run, ← bit_test]
    split_ifs <;> simp
  have hgroup : e / 128 * 8 + 2 * (e % 128 / 32) + e % 128 % 32 / 16 = q3_K.group e :=
    show e / 128 * 8 + 2 * (e % 128 / 32) + e % 128 % 32 / 16 = e / 16 by omega
  have hscale := scalesQ3_K_eq (m := m) (show q3_K.group e < 16 from show e / 16 < 16 by omega)
  have hd : (blockQ3_K m).d = UInt16.ofNat (readBits m q3_K.dPos) := u16_eq m 108
  simp only [blockElement, elemQ3_K, reading, scaled, hlow, hhm, hbit, hgroup, hd]
  rw [show (blockQ3_K m).scales = m.plus 96 from rfl, hscale]
  simp only [q3_K, Int.cast_zero] at hcode ⊢
  rw [hcode, add_sub_cancel_right]
  ring

/-- The bit of `qh` that the decoders of Q5_0 and Q5_1 take for the fifth of the element `e`. -/
def fifthBit (e : Nat) : Nat := e % 16 + 12 * (e / 16)

theorem codeQ5_eq (oh os : Nat) (he : e < 32) :
    codeQ5 (m.plus oh) (m.plus os) (e / 16) (e % 16) =
      readBits m (run (os + e % 16) (4 * (e / 16)) 4) +
        2 ^ 4 * readBits m (run oh (fifthBit e) 1) := by
  have hlt : fifthBit e < 32 := by
    unfold fifthBit
    omega
  have hword := u32_byte (p := m.plus oh) (o := 0) (show fifthBit e / 8 < 4 by omega)
    (Nat.mod_lt (fifthBit e) (by decide : 0 < 8))
  rw [Nat.div_add_mod, Nat.zero_add] at hword
  have hbit : (((m.plus oh).u32 0).toNat >>> fifthBit e) &&& 1 =
      readBits m (run oh (fifthBit e) 1) := by
    rw [show run oh (fifthBit e) 1 = run (oh + fifthBit e / 8) (fifthBit e % 8) 1 from
      congrArg (List.range' · 1) (show 8 * oh + fifthBit e =
        8 * (oh + fifthBit e / 8) + fifthBit e % 8 by omega), readBits_runs (by omega),
      show _ &&& 1 = _ from shift_and _ (fifthBit e) 1, pow_one, ← Nat.toNat_testBit,
      ← Nat.toNat_testBit, hword]
    rfl
  have hlow : nibble (e / 16) (m.plus os (e % 16)) =
      readBits m (run (os + e % 16) (4 * (e / 16)) 4) := by
    rw [nibble_eq (by omega), readBits_runs (by omega)]
    rfl
  have hsmall : readBits m (run (os + e % 16) (4 * (e / 16)) 4) < 2 ^ 4 := readBits_lt _
  unfold codeQ5
  rw [hlow, or_shiftLeft (by simpa using hsmall)]
  exact congrArg _ (congrArg _ hbit)

theorem reads_q5_0 (he : e < 32) :
    blockElement fl 6 m e =
      scaled fl q5_0 (UInt16.ofNat (readBits m q5_0.dPos)) (UInt16.ofNat (readBits m q5_0.mPos))
        (readBits m (q5_0.scalePos (q5_0.group e))) (readBits m (q5_0.minPos (q5_0.group e)))
        (readBits m (run (6 + e % 16) (4 * (e / 16)) 4) +
          2 ^ 4 * readBits m (run 2 (fifthBit e) 1)) := by
  have hcode := codeQ5_eq (m := m) 2 6 he
  have hd : (blockQ5_0 m).d = UInt16.ofNat (readBits m q5_0.dPos) := u16_eq m 0
  simp only [blockElement, elemQ5_0, scaled, hd]
  rw [show (blockQ5_0 m).qh = m.plus 2 from rfl, show (blockQ5_0 m).qs = m.plus 6 from rfl, hcode]
  simp only [q5_0, Int.cast_one, Int.cast_zero]
  ring

theorem reads_q5_1 (he : e < 32) :
    blockElement fl 7 m e =
      scaled fl q5_1 (UInt16.ofNat (readBits m q5_1.dPos)) (UInt16.ofNat (readBits m q5_1.mPos))
        (readBits m (q5_1.scalePos (q5_1.group e))) (readBits m (q5_1.minPos (q5_1.group e)))
        (readBits m (run (8 + e % 16) (4 * (e / 16)) 4) +
          2 ^ 4 * readBits m (run 4 (fifthBit e) 1)) := by
  have hcode := codeQ5_eq (m := m) 4 8 he
  have hd : (blockQ5_1 m).d = UInt16.ofNat (readBits m q5_1.dPos) := u16_eq m 0
  have hm : (blockQ5_1 m).m = UInt16.ofNat (readBits m q5_1.mPos) := u16_eq m 2
  simp only [blockElement, elemQ5_1, scaled, hd, hm, ofUnsigned]
  rw [show (blockQ5_1 m).qh = m.plus 4 from rfl, show (blockQ5_1 m).qs = m.plus 8 from rfl, hcode]
  simp only [q5_1, Int.cast_one]
  ring

end Reading

end VgEngine.Quant
