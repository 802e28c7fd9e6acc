import VgEngine.Vulkan.MatvecPlain
import VgEngine.Vulkan.MatvecKExact
import Mathlib.Tactic.NormNum

/-! When the three shaders give what `vg_cpu_matmul` gives. The output of `matvec_f32` goes to the buffer
of the input; the one scale of `matvec_f16` is a `float` that is read as two halves; and `matvec_q4_0`
reads single bits, the same for 32 rows. -/
namespace VgEngine.Vulkan
open VgEngine.Lib VgEngine.Quant VgEngine.Gguf

section Cpu

variable (W : Ptr) (x : Nat → ℚ) (outDim inDim : Nat)

/-- The weight of a row and an input. -/
def plainWeight (k : PlainKind) (o i : Nat) : ℚ :=
  element exactFloats k.type (W.plus (o * (inDim / k.blockSize * k.bytesPerBlock))) i

theorem plainKind_rows (k : PlainKind) : ∃ rows qi, pickRows exactFloats k.type = some rows ∧
    quantInfo k.type = some qi ∧ qi.blockSize = k.blockSize ∧ qi.bytesPerBlock = k.bytesPerBlock := by
  cases k with
  | f32 => exact ⟨_, ⟨0, 1, 4⟩, rfl, rfl, rfl, rfl⟩
  | f16 => exact ⟨_, ⟨1, 1, 2⟩, rfl, rfl, rfl, rfl⟩
  | q4_0 => exact ⟨_, ⟨2, 32, 18⟩, rfl, rfl, rfl, rfl⟩

/-- A row of the vector of `vg_cpu_matmul`. -/
theorem vgCpuMatmul_plain (k : PlainKind) (hout : 0 < outDim) (hsmall : outDim < 2 ^ 32)
    (hin : 0 < inDim) (hdim : inDim % k.blockSize = 0) :
    ∃ cpu, vgCpuMatmul exactFloats k.type W x 0 outDim inDim (outDim + 1) false 1 none none =
        some (.ok, cpu) ∧
      ∀ o < outDim, cpu o = ∑ i ∈ Finset.range inDim, plainWeight W inDim k o i * x i := by
  obtain ⟨rows, qi, hrows, hqi, hblock, hbytes⟩ := plainKind_rows k
  have hpool : ¬usesPool false 1 outDim inDim := fun h => absurd h.1 (by decide)
  have hdims : ¬(outDim = 0 ∨ inDim = 0) := by omega
  have hdim' : inDim % qi.blockSize = 0 := by rw [hblock, hdim]
  have hs : ¬supportedScalar qi = false := by
    rw [pickRows_supported hrows hqi]
    decide
  have hstores := pickRows_dot (W := W) (x := x) hrows hqi hdim' hout hsmall
    (not_overruns_whole k.type outDim) (Nat.lt_succ_self outDim)
  refine ⟨storeAll 0 (forRows 0 outDim (dotRow exactFloats k.type qi W x inDim)), ?_, ?_⟩
  · rw [vgCpuMatmul, if_neg hpool, matJob, if_neg (Nat.not_le.2 hout), hrows]
    simp only [matmulImpl, if_neg hdims, hqi, hdim', ne_eq, not_true_eq_false, if_false, if_neg hs]
    rw [hstores]
    rfl
  · intro o ho
    rw [storeAll_forRows, if_pos ⟨Nat.zero_le o, ho⟩, dotRow, hblock, hbytes]
    rfl

end Cpu

section Device

variable {W : Ptr} {scales : Words} {x yb : Nat → ℚ} {outDim inDim o : Nat}
variable {run : PlainRun (plainGroups outDim)}

theorem u32_halves (p : Ptr) (o : Nat) :
    p.u32 o = (p.u16 o).toUInt32 ||| (p.u16 (o + 2)).toUInt32 <<< (16 : UInt32) := by
  have hbytes (i : Nat) : (p i).toNat < 256 := (p i).toNat_lt
  have hlast : p (o + 2 + 1) = p (o + 3) := rfl
  have hlow : (p.u16 o).toUInt32.toNat < 2 ^ 16 := (p.u16 o).toNat_lt
  have hhigh : (p.u16 (o + 2)).toUInt32.toNat < 2 ^ 16 := (p.u16 (o + 2)).toNat_lt
  apply UInt32.toNat_inj.1
  rw [UInt32.toNat_or, show (16 : UInt32) = UInt32.ofNat 16 from rfl,
    toNat_shl_byte (by decide) hhigh, or_shiftLeft hlow]
  simp only [Ptr.u32, Ptr.u16, UInt16.toNat_toUInt32, UInt16.toNat_ofNat', UInt32.toNat_ofNat',
    Bytes.leNat, hlast]
  have h0 := hbytes o
  have h1 := hbytes (o + 1)
  have h2 := hbytes (o + 2)
  have h3 := hbytes (o + 3)
  omega

theorem loadU16_upload (W : Ptr) (i : Nat) :
    loadU16 (uploadWords W) i = (W.u16 (i * 2)).toUInt32 := by
  unfold loadU16 uploadWords
  dsimp only
  rw [u32_halves, halves_low, halves_high, Nat.and_one_is_mod, Nat.shiftRight_one]
  split_ifs with heven
  · rw [show 4 * (i / 2) = i * 2 by omega]
  · rw [show 4 * (i / 2) + 2 = i * 2 by omega]

/-- Invocations that store a cell each. -/
theorem storeAll_invocations {f : Nat → ℚ} {stores : Nat → List (Nat × ℚ)} {order : List Nat}
    {n total : Nat} (hstores : ∀ l, stores l = if total ≤ l then [] else [(l, f l)])
    (hperm : order.Perm (List.range n)) (ho : o < total) (hn : o < n) :
    storeAll yb (order.flatMap stores) o = f o := by
  apply storeAll_of_stored
  · intro s hs hso
    obtain ⟨l, -, hs⟩ := List.mem_flatMap.1 hs
    rw [hstores] at hs
    split_ifs at hs with hend
    · simp at hs
    · obtain rfl := List.mem_singleton.1 hs
      exact congrArg f hso
  · refine ⟨(o, f o), List.mem_flatMap.2 ⟨o, hperm.mem_iff.2 (List.mem_range.2 hn), ?_⟩, rfl⟩
    rw [hstores, if_neg (Nat.not_le.2 ho)]
    exact List.mem_singleton_self _

theorem invoked (hwide : outDim + 63 < 2 ^ 32) (ho : o < outDim) : o < plainGroups outDim * 64 := by
  rw [plainGroups, Nat.mod_eq_of_lt hwide]
  omega

/-- What `matvec_f16` leaves in a row. -/
theorem dispatchPlain_f16 (hwide : outDim + 63 < 2 ^ 32) (hin : inDim < 2 ^ 32) (ho : o < outDim) :
    dispatchPlain .f16 (uploadWords W) scales x yb outDim inDim run o =
      (∑ k ∈ Finset.range inDim, vgHalfToFloat exactFloats
        (W.u16 ((o * inDim % 2 ^ 32 + k) % 2 ^ 32 * 2)) * x k) *
          exactFloats.single (decodeF16 (loadU16 scales o)) := by
  have hstores (l : Nat) : matvecF16 ⟨uploadWords W, scales, x, yb⟩ (pushConstants outDim inDim) l =
      if outDim ≤ l then [] else [(l, (∑ k ∈ Finset.range inDim, vgHalfToFloat exactFloats
        (W.u16 ((l * inDim % 2 ^ 32 + k) % 2 ^ 32 * 2)) * x k) *
          exactFloats.single (decodeF16 (loadU16 scales l)))] := by
    have htotal : 1 * outDim % 2 ^ 32 = outDim := by omega
    unfold matvecF16 pushConstants
    simp only [List.getD_cons_zero, List.getD_cons_succ, htotal]
    split_ifs with hend
    · rfl
    · have hrow : l / outDim = 0 := Nat.div_eq_of_lt (Nat.not_le.1 hend)
      simp only [hrow, Nat.zero_mul, Nat.sub_zero, Nat.zero_mod, Nat.zero_add]
      rw [foldl_add_range, zero_add]
      have hterm : ∀ k ∈ Finset.range inDim,
          exactFloats.single (decodeF16 (loadU16 (uploadWords W) ((l * inDim % 2 ^ 32 + k) % 2 ^ 32))) *
            x (k % 2 ^ 32) =
          vgHalfToFloat exactFloats (W.u16 ((l * inDim % 2 ^ 32 + k) % 2 ^ 32 * 2)) * x k := by
        intro k hk
        have hk : k < inDim := Finset.mem_range.1 hk
        rw [loadU16_upload, decodeF16_eq, Nat.mod_eq_of_lt (hk.trans hin)]
        rfl
      rw [Finset.sum_congr rfl hterm]
  exact storeAll_invocations hstores run.invocations_perm ho (invoked hwide ho)


theorem unpackedSign (w : UInt32) {t : Nat} (ht : t < 32) (d : ℚ) :
    ((((w >>> UInt32.ofNat t) &&& 1).toNat : ℚ) - 1 / 2) * 2 * d = signed (w.toNat.testBit t) d := by
  have hshift : (UInt32.ofNat t).toNat % 32 = t := by
    rw [UInt32.toNat_ofNat']
    omega
  have hbit : ((w >>> UInt32.ofNat t) &&& 1).toNat = (w.toNat.testBit t).toNat := by
    rw [UInt32.toNat_and, UInt32.toNat_shiftRight, hshift, Nat.testBit_eq_decide_div_mod_eq,
      show (1 : UInt32).toNat = 1 from rfl, Nat.and_one_is_mod, Nat.shiftRight_eq_div_pow]
    rcases Nat.mod_two_eq_zero_or_one (w.toNat / 2 ^ t) with h | h <;> simp [h]
  rw [hbit, signed]
  cases w.toNat.testBit t <;> norm_num

/-- A sum over rows of 32, the two halves of a block together. -/
theorem sum_halves (nb : Nat) (f : Nat → ℚ) :
    ∑ i ∈ Finset.range (nb * 32), f i =
      ∑ gb ∈ Finset.range nb, ∑ j ∈ Finset.range 16, (f (gb * 32 + j) + f (gb * 32 + 16 + j)) := by
  rw [sum_range_mul]
  refine Finset.sum_congr rfl fun gb _ => ?_
  rw [show 32 = 2 * 16 from rfl, sum_range_mul 2 16, Finset.sum_range_succ, Finset.sum_range_one,
    ← Finset.sum_add_distrib]
  refine Finset.sum_congr rfl fun j _ => ?_
  rw [Nat.zero_mul, Nat.zero_add, Nat.one_mul, Nat.add_assoc]

/-- What `matvec_q4_0` leaves in a row. -/
theorem dispatchPlain_q4_0 (hwide : outDim + 63 < 2 ^ 32) (hin : inDim < 2 ^ 32)
    (hdim : inDim % 32 = 0) (ho : o < outDim) :
    dispatchPlain .q4_0 (uploadWords W) scales x yb outDim inDim run o =
      ∑ i ∈ Finset.range inDim, signed (signBit W inDim o i)
        (exactFloats.single (decodeF16 (loadU16 scales (o / 32)))) * x i := by
  have hstores (l : Nat) : matvecQ4_0 ⟨uploadWords W, scales, x, yb⟩ (pushConstants outDim inDim) l =
      if outDim ≤ l then [] else [(l, ∑ i ∈ Finset.range inDim, signed (signBit W inDim l i)
        (exactFloats.single (decodeF16 (loadU16 scales (l / 32)))) * x i)] := by
    have htotal : 1 * outDim % 2 ^ 32 = outDim := by omega
    unfold matvecQ4_0 pushConstants
    simp only [List.getD_cons_zero, List.getD_cons_succ, htotal]
    split_ifs with hend
    · rfl
    · have hrow : l / outDim = 0 := Nat.div_eq_of_lt (Nat.not_le.1 hend)
      have hgroup : l / 32 % 2 ^ 32 = l / 32 := by omega
      simp only [hrow, Nat.zero_mul, Nat.sub_zero, Nat.zero_mod, Nat.zero_add, hgroup]
      rw [← Nat.div_mul_cancel (Nat.dvd_of_mod_eq_zero hdim), sum_halves,
        Nat.div_mul_cancel (Nat.dvd_of_mod_eq_zero hdim), ← zero_add (Finset.sum _ _),
        ← foldl_add_range]
      congr 2
      apply List.foldl_ext
      intro acc gb hgb
      have hgb : gb < inDim / 32 := List.mem_range.1 hgb
      rw [← foldl_add_range]
      apply List.foldl_ext
      intro acc j hj
      have hj : j < 16 := List.mem_range.1 hj
      have hlow : (gb * 32 + j) % 2 ^ 32 = gb * 32 + j := by omega
      have hhigh : (gb * 32 + 16 + j) % 2 ^ 32 = gb * 32 + 16 + j := by omega
      have hblock : (gb * 32 + j) / 32 = gb ∧ (gb * 32 + 16 + j) / 32 = gb := by omega
      have hbit : (gb * 32 + j) % 16 * 2 + (gb * 32 + j) % 32 / 16 = j * 2 := by omega
      have hbit' : (gb * 32 + 16 + j) % 16 * 2 + (gb * 32 + 16 + j) % 32 / 16 = j * 2 + 1 := by omega
      rw [unpackedSign _ (by omega), unpackedSign _ (by omega), hlow, hhigh, signBit, signBit,
        hblock.1, hblock.2, hbit, hbit', add_assoc]
  exact storeAll_invocations hstores run.invocations_perm ho (invoked hwide ho)

end Device

section Agrees

variable {W : Ptr} {scales : Words} {outDim inDim : Nat} {k : PlainKind}

/-- The groups and the invocations one after the other. -/
def PlainRun.inOrder (groups : Nat) : PlainRun groups where
  lanes := ⟨(List.range 64).map fun l => ((), l), fun _ => (List.range 64).map fun l => ((), l),
    by rw [List.map_map]; exact .of_eq (List.map_id _), fun _ => by
      rw [List.map_map]; exact .of_eq (List.map_id _)⟩
  workgroups := List.range groups
  invocations := List.range (groups * 64)
  workgroups_perm := .refl _
  invocations_perm := .refl _

theorem deviceAgrees_iff_dot (hout : 0 < outDim) (hsmall : outDim < 2 ^ 32) (hin : 0 < inDim)
    (hdim : inDim % k.blockSize = 0) :
    DeviceAgrees k W scales outDim inDim ↔
      ∀ (x yb : Nat → ℚ) (behind : Words) (run : PlainRun (plainGroups outDim)), ∀ o < outDim,
        dispatchPlain k (uploadWords W) (boundScales k scales behind) x yb outDim inDim run o =
          ∑ i ∈ Finset.range inDim, plainWeight W inDim k o i * x i := by
  constructor
  · intro h x yb behind run o ho
    obtain ⟨cpu, hcpu, hsame⟩ := h x yb behind run
    obtain ⟨cpu', hcpu', hdot⟩ := vgCpuMatmul_plain W x outDim inDim k hout hsmall hin hdim
    obtain rfl : cpu = cpu' := congrArg Prod.snd (Option.some.inj (hcpu.symm.trans hcpu'))
    rw [hsame o ho, hdot o ho]
  · intro h x yb behind run
    obtain ⟨cpu, hcpu, hdot⟩ := vgCpuMatmul_plain W x outDim inDim k hout hsmall hin hdim
    exact ⟨cpu, hcpu, fun o ho => (h x yb behind run o ho).trans (hdot o ho).symm⟩

/-- A dispatch that leaves the output buffer as it was does not give the vector. -/
theorem not_deviceAgrees_of_stale (hout : 0 < outDim) (hsmall : outDim < 2 ^ 32) (hin : 0 < inDim)
    (hdim : inDim % k.blockSize = 0) (hstale : ∀ scales x yb run, dispatchPlain k (uploadWords W) scales
      x yb outDim inDim run = yb) : ¬DeviceAgrees k W scales outDim inDim := by
  intro h
  have hzero := (deviceAgrees_iff_dot hout hsmall hin hdim).1 h 0 (fun _ => 1) 0
    (PlainRun.inOrder _) 0 hout
  rw [hstale] at hzero
  simp at hzero

/-- A dispatch of no workgroups. -/
theorem dispatchPlain_none (hk : k ≠ .f32) (hwide : ¬outDim + 63 < 2 ^ 32) (hsmall : outDim < 2 ^ 32)
    (weights scales : Words) (x yb : Nat → ℚ) (run : PlainRun (plainGroups outDim)) :
    dispatchPlain k weights scales x yb outDim inDim run = yb := by
  have hnone : plainGroups outDim * 64 = 0 := by
    unfold plainGroups
    omega
  have hempty : run.invocations = [] := by
    have hperm := run.invocations_perm
    rw [hnone] at hperm
    exact hperm.eq_nil
  cases k with
  | f32 => exact absurd rfl hk
  | f16 =>
    unfold dispatchPlain
    dsimp only
    rw [hempty]
    rfl
  | q4_0 =>
    unfold dispatchPlain
    dsimp only
    rw [hempty]
    rfl

theorem sum_unit {n i : Nat} (hi : i < n) (f : Nat → ℚ) :
    ∑ k ∈ Finset.range n, f k * Pi.single (M := fun _ => ℚ) i 1 k = f i := by
  rw [Finset.sum_eq_single i]
  · rw [Pi.single_eq_same, mul_one]
  · intro k _ hne
    rw [Pi.single_eq_of_ne hne, mul_zero]
  · exact fun hnot => absurd (Finset.mem_range.2 hi) hnot

/-- The scale of `matvec_f16` in each row: zero in the first, not one in the second, and in the rows
from there on what is behind the buffer. -/
theorem oneScale_half (behind : Words) (o : Nat) :
    exactFloats.single (decodeF16 (loadU16 (oneScale behind) o)) =
      if o = 0 then 0 else if o = 1 then 15 / 8
      else exactFloats.single (decodeF16 (loadU16 behind o)) := by
  have hlow : exactFloats.single (decodeF16 (0x3F800000 &&& 0xFFFF)) = 0 := by
    decide +kernel
  have hhigh : exactFloats.single (decodeF16 (0x3F800000 >>> (16 : UInt32))) = 15 / 8 := by
    decide +kernel
  split_ifs with hzero hone
  · rw [hzero]
    exact hlow
  · rw [hone]
    exact hhigh
  · have hbehind : o >>> 1 ≠ 0 := by
      rw [Nat.shiftRight_one]
      omega
    rw [loadU16, oneScale, if_neg hbehind]
    rfl

/-- Weights that are all zero, also where the index of `matvec_f16` wraps. -/
theorem half_of_zero (hzero : ∀ o < outDim, ∀ i < inDim,
    vgHalfToFloat exactFloats (W.u16 ((o * inDim + i) * 2)) = 0) {n : Nat} (hn : n < outDim * inDim) :
    vgHalfToFloat exactFloats (W.u16 (n * 2)) = 0 := by
  have hin : 0 < inDim := Nat.pos_of_ne_zero fun h0 => by simp [h0] at hn
  have hrow : n / inDim < outDim := (Nat.div_lt_iff_lt_mul hin).2 hn
  have h := hzero (n / inDim) hrow (n % inDim) (Nat.mod_lt n hin)
  rwa [Nat.div_add_mod'] at h

theorem plainWeight_f16 (o i : Nat) :
    plainWeight W inDim .f16 o i = vgHalfToFloat exactFloats (W.u16 ((o * inDim + i) * 2)) := by
  have hplace : o * (inDim / 1 * 2) + i * 2 = (o * inDim + i) * 2 := by
    rw [Nat.div_one]
    ring
  rw [← hplace]
  rfl

theorem deviceAgrees_f16_iff (hout : 0 < outDim) (hsmall : outDim < 2 ^ 32) (hin : 0 < inDim)
    (hin' : inDim < 2 ^ 32) :
    DeviceAgrees .f16 W scales outDim inDim ↔ AgreesWhen .f16 W scales outDim inDim := by
  have hdim : inDim % PlainKind.f16.blockSize = 0 := Nat.mod_one inDim
  by_cases hwide : outDim + 63 < 2 ^ 32
  · rw [deviceAgrees_iff_dot hout hsmall hin hdim]
    constructor
    · intro h
      -- one input that is not zero, and a scale of zero behind the buffer
      have hunit (o i : Nat) (ho : o < outDim) (hi : i < inDim) :
          vgHalfToFloat exactFloats (W.u16 ((o * inDim % 2 ^ 32 + i) % 2 ^ 32 * 2)) *
              (if o = 0 then 0 else if o = 1 then 15 / 8
                else exactFloats.single (decodeF16 (loadU16 (fun _ => 0) o))) =
            vgHalfToFloat exactFloats (W.u16 ((o * inDim + i) * 2)) := by
        have hscale : boundScales .f16 scales (fun _ => 0) = oneScale fun _ => 0 := rfl
        have hrow := h (Pi.single i 1) 0 (fun _ => 0) (PlainRun.inOrder _) o ho
        rw [dispatchPlain_f16 hwide hin' ho, sum_unit hi, sum_unit hi, hscale, oneScale_half,
          plainWeight_f16] at hrow
        exact hrow
      have hbehind (o : Nat) : exactFloats.single (decodeF16 (loadU16 (fun _ => 0) o)) = 0 := by
        have hword : loadU16 (fun _ => 0) o = 0 := by
          simp [loadU16]
        rw [hword]
        decide +kernel
      have hother (o : Nat) (ho : o < outDim) (hne : o ≠ 1) (i : Nat) (hi : i < inDim) :
          vgHalfToFloat exactFloats (W.u16 ((o * inDim + i) * 2)) = 0 := by
        rw [← hunit o i ho hi, if_neg hne, hbehind, ite_self, mul_zero]
      refine ⟨hwide, fun o ho i hi => ?_⟩
      by_cases hone : o = 1
      · subst hone
        have hsecond := hunit 1 i ho hi
        rw [if_neg (by decide), if_pos rfl] at hsecond
        by_cases hwrap : inDim + i < 2 ^ 32
        · have hindex : (1 * inDim % 2 ^ 32 + i) % 2 ^ 32 = 1 * inDim + i := by omega
          rw [hindex] at hsecond
          linarith
        · have hindex : (1 * inDim % 2 ^ 32 + i) % 2 ^ 32 = 0 * inDim + (inDim + i - 2 ^ 32) := by
            omega
          rw [hindex, hother 0 hout (by decide) _ (by omega), zero_mul] at hsecond
          exact hsecond.symm
      · exact hother o ho hone i hi
    · rintro ⟨-, hzero⟩ x yb behind run o ho
      have hrow : o * inDim + inDim ≤ outDim * inDim := by
        rw [← Nat.succ_mul]
        exact Nat.mul_le_mul_right inDim ho
      rw [dispatchPlain_f16 hwide hin' ho, Finset.sum_eq_zero, zero_mul, Finset.sum_eq_zero]
      · intro i hi
        rw [plainWeight_f16, hzero o ho i (Finset.mem_range.1 hi), zero_mul]
      · intro i hi
        have hi : i < inDim := Finset.mem_range.1 hi
        have hindex : (o * inDim % 2 ^ 32 + i) % 2 ^ 32 ≤ o * inDim + i := by
          rw [Nat.mod_add_mod]
          exact Nat.mod_le _ _
        rw [half_of_zero hzero (by omega), zero_mul]
  · constructor
    · intro h
      exact absurd h (not_deviceAgrees_of_stale hout hsmall hin hdim fun _ _ _ _ =>
        dispatchPlain_none (k := .f16) nofun hwide hsmall _ _ _ _ _)
    · exact fun h => absurd h.1 hwide

theorem deviceAgrees_q4_0_iff (hout : 0 < outDim) (hsmall : outDim < 2 ^ 32) (hin : 0 < inDim)
    (hin' : inDim < 2 ^ 32) (hdim : inDim % 32 = 0) :
    DeviceAgrees .q4_0 W scales outDim inDim ↔ AgreesWhen .q4_0 W scales outDim inDim := by
  have hblock : inDim % PlainKind.q4_0.blockSize = 0 := hdim
  by_cases hwide : outDim + 63 < 2 ^ 32
  · rw [deviceAgrees_iff_dot hout hsmall hin hblock]
    constructor
    · intro h
      refine ⟨hwide, fun o ho i hi => ?_⟩
      have hrow := h (Pi.single i 1) 0 (fun _ => 0) (PlainRun.inOrder _) o ho
      rw [dispatchPlain_q4_0 hwide hin' hdim ho, sum_unit hi, sum_unit hi] at hrow
      exact hrow.symm
    · rintro ⟨-, hsame⟩ x yb behind run o ho
      rw [dispatchPlain_q4_0 hwide hin' hdim ho]
      refine Finset.sum_congr rfl fun i hi => ?_
      exact congrArg (· * x i) (hsame o ho i (Finset.mem_range.1 hi)).symm
  · constructor
    · intro h
      exact absurd h (not_deviceAgrees_of_stale hout hsmall hin hblock fun _ _ _ _ =>
        dispatchPlain_none (k := .q4_0) nofun hwide hsmall _ _ _ _ _)
    · exact fun h => absurd h.1 hwide

/-- The device gives the vector of `vg_cpu_matmul` for every input exactly in these cases. -/
theorem deviceAgrees_iff (k : PlainKind) (W : Ptr) (scales : Words) {outDim inDim : Nat}
    (hout : 0 < outDim) (hsmall : outDim < 2 ^ 32) (hin : 0 < inDim) (hin' : inDim < 2 ^ 32)
    (hdim : inDim % k.blockSize = 0) :
    DeviceAgrees k W scales outDim inDim ↔ AgreesWhen k W scales outDim inDim := by
  cases k with
  | f32 =>
    constructor
    · exact fun h => absurd h (not_deviceAgrees_of_stale hout hsmall hin hdim fun _ _ _ _ => rfl)
    · exact fun h => absurd h id
  | f16 => exact deviceAgrees_f16_iff hout hsmall hin hin'
  | q4_0 => exact deviceAgrees_q4_0_iff hout hsmall hin hin' hdim

/-- Two rows of three weights of F16, all of them zero. -/
theorem deviceAgrees_zeros :
    DeviceAgrees .f16 0 0 2 3 ↔ AgreesWhen .f16 0 0 2 3 :=
  deviceAgrees_iff .f16 0 0 (by decide) (by decide) (by decide) (by decide) (by decide)

/-- One weight of F16, which is one: its scale is read from the low half of the `float` 1. -/
theorem one_not_deviceAgrees :
    ¬ ∀ (k : PlainKind) (W : Ptr) (scales : Words) (outDim inDim : Nat), 0 < outDim → outDim < 2 ^ 32 →
      0 < inDim → inDim < 2 ^ 32 → inDim % k.blockSize = 0 → DeviceAgrees k W scales outDim inDim := by
  intro hclaim
  have hone := (deviceAgrees_f16_iff (by decide) (by decide) (by decide) (by decide)).1
    (hclaim .f16 (fun i => if i = 1 then 0x3C else 0) 0 1 1 (by decide) (by decide) (by decide)
      (by decide) (by decide))
  have hzero := hone.2 0 (by decide) 0 (by decide)
  revert hzero
  decide +kernel

end Agrees

end VgEngine.Vulkan
