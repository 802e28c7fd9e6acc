import VgEngine.Vulkan.Groups
import VgEngine.Lib.SharedWords
import VgEngine.Quant.Reads
import Mathlib.Algebra.Order.BigOperators.Group.Finset
import Mathlib.Algebra.Order.Ring.Abs
import Mathlib.Tactic.Linarith

/-! The shader `matvec_q8_0` over what the host prepared computes the product with the blocks of
Q8_0. -/
namespace VgEngine.Vulkan
open VgEngine.Lib VgEngine.Quant

section Words

theorem packedByte_eq {w : UInt32} {c : UInt8} {j : Nat} (hj : j < 4)
    (h : ∀ i < 8, w.toNat.testBit (8 * j + i) = c.toNat.testBit i) : packedByte w j = int8 c :=
  congrArg int8 (byteOf_eq hj h)

theorem packedByte_u32 (m : Ptr) (o : Nat) {j : Nat} (hj : j < 4) :
    packedByte (m.u32 o) j = int8 (m (o + j)) :=
  packedByte_eq hj fun _ hi => u32_byte m o hj hi

/-- A byte in its place in a word. -/
theorem testBit_placed {n : Nat} (hn : n < 256) {k j i : Nat} (hk : k < 4) (hj : j < 4) (hi : i < 8) :
    (UInt32.ofNat n <<< UInt32.ofNat (k * 8)).toNat.testBit (8 * j + i) =
      (decide (k = j) && n.testBit i) := by
  have hshift : (UInt32.ofNat (k * 8)).toNat % 32 = k * 8 := by
    rw [UInt32.toNat_ofNat']
    omega
  have hword : (UInt32.ofNat n).toNat = n := by
    rw [UInt32.toNat_ofNat']
    omega
  rw [UInt32.toNat_shiftLeft, hshift, hword, Nat.testBit_mod_two_pow, Nat.testBit_shiftLeft,
    decide_eq_true (show 8 * j + i < 32 by omega), Bool.true_and]
  rcases Nat.lt_trichotomy k j with hlt | rfl | hgt
  · have hhigh : n.testBit (8 * j + i - k * 8) = false :=
      Nat.testBit_lt_two_pow (hn.trans_le (Nat.pow_le_pow_right (show 0 < 2 by decide)
        (show 8 ≤ 8 * j + i - k * 8 by omega)))
    rw [hhigh, Bool.and_false, decide_eq_false hlt.ne, Bool.false_and]
  · rw [show 8 * k + i - k * 8 = i by omega, decide_eq_true (show k * 8 ≤ 8 * k + i by omega)]
    simp
  · have hlow : ¬k * 8 ≤ 8 * j + i := by omega
    simp [hlow, hgt.ne']

theorem testBit_packCodes (q : Nat → Int) {j i : Nat} (hj : j < 4) (hi : i < 8) :
    (packCodes q).toNat.testBit (8 * j + i) = (q j % 256).toNat.testBit i := by
  have hbyte : ∀ k, (q k % 256).toNat < 256 := fun k => by omega
  have hplaced := fun k (hk : k < 4) => testBit_placed (hbyte k) hk hj hi
  simp only [packCodes, show List.range 4 = [0, 1, 2, 3] from rfl, List.foldl_cons, List.foldl_nil,
    UInt32.toNat_or, Nat.testBit_or, hplaced 0 (by decide), hplaced 1 (by decide),
    hplaced 2 (by decide), hplaced 3 (by decide)]
  interval_cases j <;> simp

theorem clampCode_bounds (q : Int) : -128 ≤ clampCode q ∧ clampCode q ≤ 127 := by
  unfold clampCode
  dsimp only
  split_ifs <;> omega

theorem int8_ofInt {q : Int} (hlow : -128 ≤ q) (hhigh : q ≤ 127) :
    int8 (UInt8.ofNat (q % 256).toNat) = q := by
  rw [int8_eq, UInt8.toNat_ofNat', signed8]
  split_ifs <;> omega

theorem packedByte_packCodes {q : Nat → Int} {j : Nat} (hj : j < 4) (hlow : -128 ≤ q j)
    (hhigh : q j ≤ 127) : packedByte (packCodes q) j = q j := by
  refine (packedByte_eq hj fun i hi => ?_).trans (int8_ofInt hlow hhigh)
  rw [testBit_packCodes q hj hi, UInt8.toNat_ofNat', Nat.mod_eq_of_lt (by omega)]

end Words

section Halves

/-- Bringing up the significand of a subnormal gives the same bits in the shader and on the host. -/
theorem shiftUp_normalize : ∀ mant < (0x400 : Nat), mant ≠ 0 →
    UInt32.ofInt (127 - 15 - (shiftUp 10 (UInt32.ofNat mant) (-1)).2) =
        (normalize 10 (UInt32.ofNat mant) 113).2 ∧
      (shiftUp 10 (UInt32.ofNat mant) (-1)).1 &&& (0x3FF : UInt32) =
        (normalize 10 (UInt32.ofNat mant) 113).1 &&& (0x3FF : UInt32) := by
  decide +kernel

theorem decodeF16_eq (h : UInt16) : decodeF16 h.toUInt32 = halfBits h := by
  have hsign : ((h.toUInt32 >>> (15 : UInt32)) &&& 1) <<< (31 : UInt32) =
      (h &&& 0x8000).toUInt32 <<< (16 : UInt32) := by
    refine UInt32.toBitVec_inj.mp (BitVec.eq_of_getLsbD_eq fun i hi => ?_)
    interval_cases i <;> simp
  have hexp : (h.toUInt32 >>> (10 : UInt32)) &&& (0x1F : UInt32) =
      ((h >>> 10) &&& (0x1F : UInt16)).toUInt32 := by
    refine UInt32.toBitVec_inj.mp (BitVec.eq_of_getLsbD_eq fun i hi => ?_)
    simp
  have hmant : h.toUInt32 &&& (0x3FF : UInt32) = (h &&& (0x3FF : UInt16)).toUInt32 := by
    refine UInt32.toBitVec_inj.mp (BitVec.eq_of_getLsbD_eq fun i hi => ?_)
    simp
  unfold decodeF16 halfBits
  simp only [hexp, hmant]
  split_ifs with hzero hmzero hinf
  · exact hsign
  · have hword : (h &&& 0x3FF).toUInt32 = UInt32.ofNat (h &&& 0x3FF).toNat :=
      UInt32.toNat_inj.mp (by simp)
    have hlt : (h &&& 0x3FF).toNat < 0x400 := by
      rw [UInt16.toNat_and]
      exact Nat.and_lt_two_pow h.toNat (by decide : _ < 2 ^ 10)
    have hpos : (h &&& 0x3FF).toNat ≠ 0 := fun h0 => hmzero (by rw [hword, h0]; rfl)
    obtain ⟨hexponent, hfraction⟩ := shiftUp_normalize _ hlt hpos
    rw [hsign, hword, hexponent, hfraction]
    rfl
  · rw [hsign]
  · rw [hsign, UInt32.sub_eq_add_neg, UInt32.add_assoc]
    rfl

end Halves

section Prepared

/-- The word `w` of the codes of a block holds the bytes `4 * w` to `4 * w + 3` of its codes. -/
theorem repackCodes_byte (p fresh : Ptr) {nb blk w j : Nat} (hblk : blk < nb) (hw : w < 8)
    (hj : j < 4) : packedByte (repackCodes p nb fresh (blk * 8 + w)) j =
      int8 ((blockQ8_0 (p.plus (blk * 34))).qs (w * 4 + j)) := by
  have hfills : Fills (nb * 32) (fun i => p (i / 32 * 34 + 2 + i % 32))
      ((List.range nb).flatMap fun b => storesAt (b * 32) <|
        (List.range 32).map fun k => (k, p (b * 34 + 2 + k))) :=
    Fills.blocks (fun b k => p (b * 34 + 2 + k)) fun b _ => fills_each _
  have hin : (blk * 8 + w) * 4 + j < nb * 32 := by omega
  rw [repackCodes, packedByte_u32 _ _ hj, hfills.storeAll, if_pos hin]
  refine congrArg (fun i => int8 (p i)) ?_
  omega

theorem halves_low (s0 s1 : UInt16) :
    (s0.toUInt32 ||| s1.toUInt32 <<< (16 : UInt32)) &&& 0xFFFF = s0.toUInt32 := by
  refine UInt32.toBitVec_inj.mp (BitVec.eq_of_getLsbD_eq fun i hi => ?_)
  interval_cases i <;> simp

theorem halves_high (s0 s1 : UInt16) :
    (s0.toUInt32 ||| s1.toUInt32 <<< (16 : UInt32)) >>> 16 = s1.toUInt32 := by
  refine UInt32.toBitVec_inj.mp (BitVec.eq_of_getLsbD_eq fun i hi => ?_)
  interval_cases i <;> simp

theorem repackScales_word (p : Ptr) (fresh : Words) {nb k : Nat} (hk : k < (nb + 1) / 2) :
    repackScales p nb fresh k = (p.u16 (2 * k * 34)).toUInt32 |||
      (if 2 * k + 1 < nb then p.u16 ((2 * k + 1) * 34) else 0).toUInt32 <<< (16 : UInt32) := by
  refine storeAll_of_stored (fun s hs hsk => ?_) ⟨_, List.mem_map.mpr ⟨k, List.mem_range.mpr hk, rfl⟩,
    Nat.mul_div_cancel_left k (by decide)⟩
  obtain ⟨k', -, rfl⟩ := List.mem_map.mp hs
  obtain rfl : k' = k := by simpa using hsk
  rfl

/-- The half that the parity of the block selects is the scale of the block. -/
theorem repackScales_half (p : Ptr) (fresh : Words) {nb blk : Nat} (hblk : blk < nb) :
    (if blk &&& 1 = 0 then repackScales p nb fresh (blk >>> 1) &&& 0xFFFF
      else repackScales p nb fresh (blk >>> 1) >>> 16) = (p.u16 (blk * 34)).toUInt32 := by
  have hword : blk >>> 1 < (nb + 1) / 2 := by
    rw [Nat.shiftRight_one]
    omega
  rw [repackScales_word p fresh hword, Nat.and_one_is_mod, Nat.shiftRight_one]
  split_ifs with heven hnext hnext
  · rw [halves_low, show 2 * (blk / 2) = blk by omega]
  · rw [halves_low, show 2 * (blk / 2) = blk by omega]
  · rw [halves_high, show 2 * (blk / 2) + 1 = blk by omega]
  · omega

end Prepared

section Sums

theorem int8_abs (b : UInt8) : |int8 b| ≤ 128 := by
  rw [int8_eq, signed8, abs_le]
  have hlt : b.toNat < 256 := b.toNat_lt
  split_ifs <;> omega

theorem dotPacked4x8_eq (a b : UInt32) :
    dotPacked4x8 a b = ∑ j ∈ Finset.range 4, packedByte a j * packedByte b j := by
  simp [dotPacked4x8, List.range_succ, Finset.sum_range_succ, add_assoc]

theorem dotPacked4x8_abs (a b : UInt32) : |dotPacked4x8 a b| ≤ 65536 := by
  rw [dotPacked4x8_eq]
  calc |∑ j ∈ Finset.range 4, packedByte a j * packedByte b j|
      ≤ ∑ j ∈ Finset.range 4, |packedByte a j * packedByte b j| := Finset.abs_sum_le_sum_abs _ _
    _ ≤ ∑ _j ∈ Finset.range 4, 128 * 128 := Finset.sum_le_sum fun j _ => by
        rw [abs_mul]
        exact mul_le_mul (int8_abs _) (int8_abs _) (abs_nonneg _) (by decide)
    _ = 65536 := by simp

/-- The sum of the words of a block stays within an `int`. -/
theorem foldl_wrapped {d : Nat → Int} (hd : ∀ w, |d w| ≤ 65536) {n : Nat} (hn : n ≤ 8) :
    (List.range n).foldl (fun a w => (a + d w).bmod (2 ^ 32)) 0 = ∑ w ∈ Finset.range n, d w ∧
      |∑ w ∈ Finset.range n, d w| ≤ n * 65536 := by
  induction n with
  | zero => simp
  | succ n ih =>
    obtain ⟨hsum, hbound⟩ := ih (by omega)
    have hnext : |∑ w ∈ Finset.range (n + 1), d w| ≤ ((n + 1 : Nat) : Int) * 65536 := by
      rw [Finset.sum_range_succ]
      refine (abs_add_le _ _).trans ?_
      have hlast := hd n
      push_cast
      linarith
    refine ⟨?_, hnext⟩
    rw [List.range_succ, List.foldl_append, hsum, List.foldl_cons, List.foldl_nil,
      ← Finset.sum_range_succ]
    have hsmall := abs_le.mp hnext
    push_cast at hsmall
    exact Int.bmod_eq_of_le (by omega) (by omega)

theorem foldl_add_list {K : Type*} [AddCommMonoid K] (f : Nat → K) (l : List Nat) (a : K) :
    l.foldl (fun acc j => acc + f j) a = a + (l.map f).sum := by
  induction l generalizing a with
  | nil => simp
  | cons j l ih => rw [List.foldl_cons, ih, List.map_cons, List.sum_cons, add_assoc]

end Sums

section Rows

variable {K : Type*} [CommRing K] (fl : Floats K)

/-- The product of a row of the weights with the activations, block by block. -/
def blockDot (wdata : Ptr) (d : Nat → K) (q : Nat → Nat → Int) (bpr row : Nat) : K :=
  ∑ gb ∈ Finset.range bpr,
    vgHalfToFloat fl (blockQ8_0 (wdata.plus ((row * bpr + gb) * 34))).d * d gb *
      ((∑ i ∈ Finset.range 32,
        int8 ((blockQ8_0 (wdata.plus ((row * bpr + gb) * 34))).qs i) * q gb i : Int) : K)

/-- The buffers hold what the host makes of the weights and of the activations. -/
structure Prepared (b : Bound K) (wdata : Ptr) (d : Nat → K) (q : Nat → Nat → Int) : Prop where
  words : 8 * (b.outDim * (b.inDim / 32)) ≤ 2 ^ 32
  codes : ∃ fresh, b.wq = repackCodes wdata (b.outDim * (b.inDim / 32)) fresh
  scales : ∃ fresh, b.ws = repackScales wdata (b.outDim * (b.inDim / 32)) fresh
  xd : ∀ gb < b.inDim / 32, b.xd gb = d gb
  xq : ∀ gb < b.inDim / 32, ∀ w < 8, b.xq (gb * 8 + w) = packCodes fun j => q gb (w * 4 + j)
  bounds : ∀ gb i, -128 ≤ q gb i ∧ q gb i ≤ 127

variable {fl} {b : Bound K} {wdata : Ptr} {d : Nat → K} {q : Nat → Nat → Int}

omit [CommRing K] in
/-- What the words of a block add up to. -/
theorem Prepared.block (h : Prepared b wdata d q) {row gb : Nat} (hrow : row < b.outDim)
    (hgb : gb < b.inDim / 32) :
    (List.range 8).foldl (fun a w => (a + dotPacked4x8
        (b.wq (((row * (b.inDim / 32) + gb) % 2 ^ 32 * 8 + w) % 2 ^ 32))
        (b.xq ((gb * 8 + w) % 2 ^ 32))).bmod (2 ^ 32)) 0 =
      ∑ i ∈ Finset.range 32,
        int8 ((blockQ8_0 (wdata.plus ((row * (b.inDim / 32) + gb) * 34))).qs i) * q gb i := by
  obtain ⟨fresh, hcodes⟩ := h.codes
  have hblk : row * (b.inDim / 32) + gb < b.outDim * (b.inDim / 32) := by
    calc row * (b.inDim / 32) + gb < (row + 1) * (b.inDim / 32) := by rw [Nat.succ_mul]; omega
      _ ≤ b.outDim * (b.inDim / 32) := Nat.mul_le_mul_right _ hrow
  have hgb' : gb ≤ row * (b.inDim / 32) + gb := Nat.le_add_left _ _
  have hwords := h.words
  rw [(foldl_wrapped (fun w => dotPacked4x8_abs _ _) (Nat.le_refl 8)).1, sum_range_mul 8 4]
  refine Finset.sum_congr rfl fun w hw => ?_
  have hw8 : w < 8 := Finset.mem_range.mp hw
  have hblk32 : (row * (b.inDim / 32) + gb) % 2 ^ 32 = row * (b.inDim / 32) + gb :=
    Nat.mod_eq_of_lt (by omega)
  rw [hblk32, Nat.mod_eq_of_lt (by omega), Nat.mod_eq_of_lt (by omega), hcodes,
    h.xq gb hgb w hw8, dotPacked4x8_eq]
  refine Finset.sum_congr rfl fun j hj => ?_
  have hj4 : j < 4 := Finset.mem_range.mp hj
  obtain ⟨hlow, hhigh⟩ := h.bounds gb (w * 4 + j)
  rw [repackCodes_byte wdata fresh hblk hw8 hj4, packedByte_packCodes hj4 hlow hhigh]

theorem Prepared.lane_sum (h : Prepared b wdata d q) {row : Nat} (hrow : row < b.outDim)
    {lane : Nat} (hlane : lane < 32) :
    laneAcc fl b row lane = ((strided (b.inDim / 32) 32 lane).map fun gb =>
      vgHalfToFloat fl (blockQ8_0 (wdata.plus ((row * (b.inDim / 32) + gb) * 34))).d * d gb *
        ((∑ i ∈ Finset.range 32,
          int8 ((blockQ8_0 (wdata.plus ((row * (b.inDim / 32) + gb) * 34))).qs i) * q gb i : Int)
            : K)).sum := by
  obtain ⟨fresh, hscales⟩ := h.scales
  rw [← zero_add (List.sum _), ← foldl_add_list]
  refine List.foldl_ext _ _ _ fun acc gb hmem => ?_
  have hgb : gb < b.inDim / 32 := ((mem_strided hlane).mp hmem).1
  have hblk : row * (b.inDim / 32) + gb < b.outDim * (b.inDim / 32) := by
    calc row * (b.inDim / 32) + gb < (row + 1) * (b.inDim / 32) := by rw [Nat.succ_mul]; omega
      _ ≤ b.outDim * (b.inDim / 32) := Nat.mul_le_mul_right _ hrow
  have hblk32 : (row * (b.inDim / 32) + gb) % 2 ^ 32 = row * (b.inDim / 32) + gb :=
    Nat.mod_eq_of_lt (by have hwords := h.words; omega)
  dsimp only
  rw [h.block hrow hgb, hblk32, hscales, repackScales_half wdata fresh hblk, decodeF16_eq,
    h.xd gb hgb]
  change acc + _ * vgHalfToFloat fl _ * d gb = _
  rw [mul_comm ((_ : Int) : K), mul_assoc, mul_comm ((_ : Int) : K), ← mul_assoc]
  rfl

/-- The lanes of a group are left with the product of their row. -/
theorem Prepared.group (h : Prepared b wdata d q) {row : Nat} (hrow : row < b.outDim) :
    ∑ l ∈ Finset.range 32, laneAcc fl b row l = blockDot fl wdata d q (b.inDim / 32) row := by
  rw [blockDot, ← sum_strided (b.inDim / 32) 32 _ (by decide)]
  exact Finset.sum_congr rfl fun l hl => h.lane_sum hrow (Finset.mem_range.mp hl)

/-- What each lane has in `acc`. -/
theorem matvecGroup_eq (b : Bound K) (s : Schedule) (wg : Nat) (red : Nat × Nat → K) :
    matvecGroup fl b s wg red = groupStores b.outDim (fun i =>
      if (wg * 8 + i.1) % 2 ^ 32 < b.outDim then laneAcc fl b ((wg * 8 + i.1) % 2 ^ 32) i.2 else 0)
      s wg red := rfl

/-- The rows of a dispatch, whatever the order of its workgroups, lanes and stores. -/
theorem Prepared.stored (h : Prepared b wdata d q) (hblocks : 0 < b.inDim / 32)
    {runs : List (GroupRun K)} {stores : List (Nat × K)}
    (hruns : (runs.map GroupRun.wg).Perm (List.range ((b.outDim + 7) / 8)))
    (hstores : stores.Perm (runs.flatMap fun r => matvecGroup fl b r.schedule r.wg r.red))
    (y : Nat → K) {row : Nat} (hrow : row < b.outDim) :
    storeAll y stores row = blockDot fl wdata d q (b.inDim / 32) row := by
  have hrows : b.outDim ≤ b.outDim * (b.inDim / 32) := Nat.le_mul_of_pos_right _ hblocks
  have hwords := h.words
  simp only [matvecGroup_eq] at hstores
  refine storeAll_groups (by omega) (by omega) hruns hstores ?_ y hrow
  intro r hr row hlo hhi hin
  have hwrap : (r.wg * 8 + (row - r.wg * 8)) % 2 ^ 32 = row := by
    rw [Nat.add_sub_cancel' hlo]
    exact Nat.mod_eq_of_lt (by omega)
  refine Eq.trans ?_ (h.group hin)
  refine Finset.sum_congr rfl fun l _ => ?_
  rw [hwrap, if_pos hin]

end Rows

section Dispatch

variable {K : Type*} [CommRing K]

/-- What the cache has under the key was made of the same weights. -/
structure Current (cached : Nat → Option Words) (tag : Nat) (wdata : Ptr) (nb : Nat) : Prop where
  codes : ∀ w, cached tag = some w → ∃ fresh, w = repackCodes wdata nb fresh
  scales : ∀ w, cached (tag ||| 1) = some w → ∃ fresh, w = repackScales wdata nb fresh

omit [CommRing K] in
/-- The activations in the scratch buffers. -/
theorem quantizeRowQ8_0Host_fills (d : Nat → K) (rounded : Nat → Nat → Int) (nb : Nat) :
    Fills nb d (quantizeRowQ8_0Host d rounded nb).1 ∧
      Fills (nb * 8) (fun i => packCodes fun j => clampCode (rounded (i / 8) (i % 8 * 4 + j)))
        (quantizeRowQ8_0Host d rounded nb).2 := by
  refine ⟨fills_each d, ?_⟩
  have hblocks := Fills.blocks (k := nb) (n := 8)
    (fun b g => packCodes fun j => clampCode (rounded b (g * 4 + j))) fun b _ => fills_each _
  simpa [storesAt, quantizeRowQ8_0Host, Function.comp_def] using hblocks

omit [CommRing K] in
theorem prepared_bindBuffers {cached : Nat → Option Words} {tag : Nat} {wdata : Ptr}
    {outDim inDim : Nat} (hwords : 8 * (outDim * (inDim / 32)) ≤ 2 ^ 32)
    (hcached : Current cached tag wdata (outDim * (inDim / 32))) (freshCodes : Ptr)
    (freshScales : Words) (freshXd : Nat → K) (freshXq : Words) (d : Nat → K)
    (rounded : Nat → Nat → Int) :
    Prepared (bindBuffers ((cached tag).getD (repackCodes wdata (outDim * (inDim / 32)) freshCodes),
        (cached (tag ||| 1)).getD (repackScales wdata (outDim * (inDim / 32)) freshScales))
      freshXd freshXq d rounded outDim inDim) wdata d fun b i => clampCode (rounded b i) where
  words := hwords
  codes := by
    cases hc : cached tag with
    | none => exact ⟨freshCodes, by simp [bindBuffers]⟩
    | some w =>
      obtain ⟨fresh, hw⟩ := hcached.codes w hc
      exact ⟨fresh, by simp [bindBuffers, hw]⟩
  scales := by
    cases hc : cached (tag ||| 1) with
    | none => exact ⟨freshScales, by simp [bindBuffers]⟩
    | some w =>
      obtain ⟨fresh, hw⟩ := hcached.scales w hc
      exact ⟨fresh, by simp [bindBuffers, hw]⟩
  xd := fun gb hgb => by
    dsimp only [bindBuffers] at hgb ⊢
    rw [(quantizeRowQ8_0Host_fills d rounded _).1.storeAll, if_pos hgb]
  xq := fun gb hgb w hw => by
    dsimp only [bindBuffers] at hgb ⊢
    have hin : gb * 8 + w < inDim / 32 * 8 := by omega
    rw [(quantizeRowQ8_0Host_fills d rounded _).2.storeAll, if_pos hin,
      show (gb * 8 + w) / 8 = gb by omega, show (gb * 8 + w) % 8 = w by omega]
  bounds := fun _ _ => clampCode_bounds _

/-- The shader computes every row of the product exactly, whatever the order of its workgroups, lanes
and stores, from what `vk_q8_prepare` hands over; and this refuses only a product without blocks. -/
theorem matvecQ8_0_exact (fl : Floats K) (wdata : Ptr) {outDim inDim : Nat} (hdim : inDim % 32 = 0)
    (hwords : 8 * (outDim * (inDim / 32)) ≤ 2 ^ 32) {cached : Nat → Option Words} {tag : Nat}
    (hcached : Current cached tag wdata (outDim * (inDim / 32))) (freshCodes : Ptr)
    (freshScales : Words) :
    outDim * (inDim / 32) = 0 ∧
        vkQ8Prepare cached tag wdata outDim inDim freshCodes freshScales = .error .unsupported ∨
      ∃ bufs, vkQ8Prepare cached tag wdata outDim inDim freshCodes freshScales = .ok bufs ∧
        ∀ (d : Nat → K) (rounded : Nat → Nat → Int) (freshXd : Nat → K) (freshXq : Words)
          (y : Nat → K) (runs : List (GroupRun K)) (stores : List (Nat × K)),
          (runs.map GroupRun.wg).Perm (List.range (dispatched outDim)) →
          stores.Perm (runs.flatMap fun r =>
            matvecGroup fl (bindBuffers bufs freshXd freshXq d rounded outDim inDim)
              r.schedule r.wg r.red) →
          ∀ row < outDim, storeAll y stores row =
            blockDot fl wdata d (fun b i => clampCode (rounded b i)) (inDim / 32) row := by
  have hsmall : outDim * (inDim / 32) % 2 ^ 32 = outDim * (inDim / 32) := Nat.mod_eq_of_lt (by omega)
  by_cases hzero : outDim * (inDim / 32) = 0
  · exact .inl ⟨hzero, by rw [vkQ8Prepare, if_pos (.inr (by rw [hzero, Nat.zero_mod]))]⟩
  · refine .inr ⟨_, by rw [vkQ8Prepare, if_neg (by rw [hsmall]; omega), hsmall], ?_⟩
    intro d rounded freshXd freshXq y runs stores hruns hstores row hrow
    have hprep := prepared_bindBuffers hwords hcached freshCodes freshScales freshXd freshXq d rounded
    have hblocks : 0 < inDim / 32 := Nat.pos_of_ne_zero fun h0 => hzero (by rw [h0, Nat.mul_zero])
    have hrows : outDim ≤ outDim * (inDim / 32) := Nat.le_mul_of_pos_right _ hblocks
    have hgroups : dispatched outDim = (outDim + 7) / 8 := by
      rw [dispatched, Nat.mod_eq_of_lt (by omega)]
    rw [hgroups] at hruns
    exact hprep.stored hblocks hruns hstores y hrow

/-- Rows of three blocks, so that the second row starts at the upper half of a word of scales. -/
theorem matvecQ8_0_exact_odd :
    ∃ bufs, vkQ8Prepare (fun _ => none) 0 0 3 96 0 0 = .ok bufs ∧ ∀ row < 3,
      storeAll 0 (matvecGroup exactFloats
        (bindBuffers bufs 0 0 (fun _ => 1) (fun _ i => i) 3 96) inOrder 0 0) row =
          blockDot exactFloats 0 (fun _ => 1) (fun _ i => clampCode i) 3 row := by
  obtain ⟨hnone, -⟩ | ⟨bufs, hbufs, hrows⟩ := @matvecQ8_0_exact ℚ _ exactFloats 0 3 96
    (by decide) (by decide) (fun _ => none) 0
    ⟨fun _ h => (nomatch h), fun _ h => (nomatch h)⟩ 0 0
  · exact absurd hnone (by decide)
  · refine ⟨bufs, hbufs, fun row hrow => ?_⟩
    exact hrows (fun _ => 1) (fun _ i => i) 0 0 0 [⟨0, inOrder, 0⟩] _ (.refl _)
      (by rw [List.flatMap_singleton]) row hrow

end Dispatch

end VgEngine.Vulkan
