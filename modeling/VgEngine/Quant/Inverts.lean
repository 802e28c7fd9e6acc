import VgEngine.Quant.Reads

/-! Decoding inverts packing, except where the decoders of Q5_0 and Q5_1 take the fifth bit of
another element. -/
namespace VgEngine.Quant
open VgEngine.Lib VgEngine.Gguf

section Inverts

variable {K : Type*} [CommRing K] {fl : Floats K} {f : Format} {contents : Nat → Contents f}
  {nb : Nat}

/-- `vg_dequantize_row` on the packing of `nb` blocks. -/
def decodePacked (fl : Floats K) (f : Format) (contents : Nat → Contents f) (nb : Nat)
    (out : Nat → K) : Status × (Nat → K) :=
  vgDequantizeRow fl f.type (f.packed contents) (nb * f.bytes) out (nb * f.size)

/-- What the element `i` of the packing stands for. -/
def packedElement (fl : Floats K) (f : Format) (contents : Nat → Contents f) (i : Nat) : K :=
  let c := contents (i / f.size)
  let e := i % f.size
  scaled fl f c.d c.m (c.scale (f.group e)) (c.min (f.group e)) (c.code e)

/-- The row comes back: each element is its scale times its code plus its offset, and no bit of
a block belongs to two of its numbers. -/
structure Inverted (fl : Floats K) (f : Format) (contents : Nat → Contents f) (nb : Nat)
    (out : Nat → K) : Prop where
  status : nb ≠ 0 → (decodePacked fl f contents nb out).1 = .ok
  values : ∀ i < nb * f.size, (decodePacked fl f contents nb out).2 i =
    packedElement fl f contents i
  own : f.positions.Nodup

/-- In a block of Q5_0 or Q5_1, each element of the upper half has its fifth bit in common with the
element four before it, or the block is scaled by zero. -/
def FifthBits (fl : Floats K) (f : Format) (c : Contents f) : Prop :=
  f.type = 6 ∨ f.type = 7 → vgHalfToFloat fl c.d = 0 ∨
    ∀ j < 16, (c.code (16 + j)).testBit 4 = (c.code (12 + j)).testBit 4

/-- How the table and `block_fn` know the formats. -/
theorem formats_known : ∀ f ∈ formats, quantInfo f.type = some ⟨f.type, f.size, f.bytes⟩ ∧
    supportedScalar ⟨f.type, f.size, f.bytes⟩ = true ∧ 0 < f.size ∧ 0 < f.bytes ∧
      ∀ e < f.size, f.group e < f.groups := by
  decide +kernel

theorem scalarFn_formats (hf : f ∈ formats) : scalarFn fl f.type = none := by
  simp only [formats, List.mem_cons, List.not_mem_nil, or_false] at hf
  rcases hf with rfl | rfl | rfl | rfl | rfl | rfl | rfl | rfl | rfl | rfl | rfl | rfl | rfl <;> rfl

theorem rowStatus_formats (hf : f ∈ formats) (hnb : 0 < nb)
    (hbytes : nb * f.bytes < 2 ^ 64) : rowStatus f.type (nb * f.bytes) (nb * f.size) = .ok := by
  obtain ⟨hqi, hs, hsize, hpos, -⟩ := formats_known f hf
  have hfits : nb ≤ (2 ^ 64 - 1) / f.bytes := by
    rw [Nat.le_div_iff_mul_le hpos]
    omega
  have hmul : nb * f.size ≠ 0 := (Nat.mul_pos hnb hsize).ne'
  have hvalid : vgQuantValidate f.type (nb * f.size) (nb * f.bytes) = .ok := by
    unfold vgQuantValidate
    simp only [hqi, Nat.mul_mod_left, Nat.mul_div_cancel _ hsize]
    rw [if_neg (by simp [hmul]), if_neg (Nat.not_lt.mpr hfits), if_pos trivial]
  simp [rowStatus, hmul, hvalid, hqi, hs]

theorem decodePacked_eq (hf : f ∈ formats) (hnb : 0 < nb) (hbytes : nb * f.bytes < 2 ^ 64)
    (out : Nat → K) :
    decodePacked fl f contents nb out = (.ok, fun i => if i < nb * f.size then
      blockElement fl f.type ((f.packed contents).plus (i / f.size * f.bytes)) (i % f.size)
        else out i) := by
  rw [decodePacked, vgDequantizeRow_eq, rowStatus_formats hf hnb hbytes]
  refine Prod.ext rfl (funext fun i => ?_)
  simp only [true_and, element, scalarFn_formats hf, (formats_known f hf).1]

/-- A number of a block is read back at its positions. -/
theorem readBits_field (hf : f ∈ formats) (b : Nat) {g : Field} (hmem : g ∈ f.fields (contents b))
    (hfits : g.value < 2 ^ g.positions.length) :
    readBits ((f.packed contents).plus (b * f.bytes)) g.positions = g.value := by
  have hnodup : (allPositions (f.fields (contents b))).Nodup := by
    rw [f.allPositions_fields]
    exact Format.positions_nodup hf
  have hbound : ∀ p ∈ g.positions, p < 8 * f.bytes := by
    intro p hp
    apply formats_bounded f hf
    rw [← f.allPositions_fields (contents b)]
    exact List.mem_flatMap.mpr ⟨g, hmem, hp⟩
  exact readBits_packBlocks f.bytes (fun b => f.fields (contents b)) b hnodup hmem hbound hfits

theorem readBits_code (hf : f ∈ formats) (b : Nat) {e : Nat} (he : e < f.size) :
    readBits ((f.packed contents).plus (b * f.bytes)) (f.codePos e) = (contents b).code e := by
  have hmem : ⟨f.codePos e, (contents b).code e⟩ ∈ f.fields (contents b) := by
    simp only [Format.fields, List.mem_cons, List.mem_append, List.mem_map, List.mem_range]
    exact .inr (.inr (.inr (.inr ⟨e, he, rfl⟩)))
  exact readBits_field hf b hmem ((contents b).code_lt e he)

variable (contents) in
/-- The numbers that go with the element `e` of a block are read back. -/
theorem readBits_numbers (hf : f ∈ formats) (b : Nat) {e : Nat} (he : e < f.size) :
    readBits ((f.packed contents).plus (b * f.bytes)) f.dPos = (contents b).d.toNat ∧
      readBits ((f.packed contents).plus (b * f.bytes)) f.mPos = (contents b).m.toNat ∧
      readBits ((f.packed contents).plus (b * f.bytes)) (f.scalePos (f.group e)) =
        (contents b).scale (f.group e) ∧
      readBits ((f.packed contents).plus (b * f.bytes)) (f.minPos (f.group e)) =
        (contents b).min (f.group e) := by
  have hg : f.group e < f.groups := (formats_known f hf).2.2.2.2 e he
  have hd : ⟨f.dPos, (contents b).d.toNat⟩ ∈ f.fields (contents b) := by simp [Format.fields]
  have hm : ⟨f.mPos, (contents b).m.toNat⟩ ∈ f.fields (contents b) := by simp [Format.fields]
  have hscale : ⟨f.scalePos (f.group e), (contents b).scale (f.group e)⟩ ∈
      f.fields (contents b) := by
    simp only [Format.fields, List.mem_cons, List.mem_append, List.mem_map, List.mem_range]
    exact .inr (.inr (.inl ⟨f.group e, hg, rfl⟩))
  have hmin : ⟨f.minPos (f.group e), (contents b).min (f.group e)⟩ ∈ f.fields (contents b) := by
    simp only [Format.fields, List.mem_cons, List.mem_append, List.mem_map, List.mem_range]
    exact .inr (.inr (.inr (.inl ⟨f.group e, hg, rfl⟩)))
  have hfits : (contents b).d.toNat < 2 ^ f.dPos.length := by
    rw [dPos_length f hf]
    exact (contents b).d.toNat_lt
  exact ⟨readBits_field hf b hd hfits, readBits_field hf b hm (contents b).m_lt,
    readBits_field hf b hscale ((contents b).scale_lt _ hg),
    readBits_field hf b hmin ((contents b).min_lt _ hg)⟩

/-- The formats whose decoder reads at the standard positions. -/
theorem blockElement_packed (hf : f ∈ formats)
    (hreads : ∀ (m : Ptr) (e : Nat), e < f.size →
      blockElement fl f.type m e = reading fl f m e) (b : Nat) {e : Nat} (he : e < f.size) :
    blockElement fl f.type ((f.packed contents).plus (b * f.bytes)) e =
      scaled fl f (contents b).d (contents b).m ((contents b).scale (f.group e))
        ((contents b).min (f.group e)) ((contents b).code e) := by
  obtain ⟨hd, hm, hscale, hmin⟩ := readBits_numbers contents hf b he
  rw [hreads _ e he, reading, hd, hm, hscale, hmin, readBits_code hf b he, UInt16.ofNat_toNat,
    UInt16.ofNat_toNat]

/-- The row comes back when each block does. -/
theorem inverted_iff_blocks (hf : f ∈ formats) (hnb : 0 < nb) (hbytes : nb * f.bytes < 2 ^ 64)
    (out : Nat → K) :
    Inverted fl f contents nb out ↔ ∀ b < nb, ∀ e < f.size,
      blockElement fl f.type ((f.packed contents).plus (b * f.bytes)) e =
        scaled fl f (contents b).d (contents b).m ((contents b).scale (f.group e))
          ((contents b).min (f.group e)) ((contents b).code e) := by
  have hsize : 0 < f.size := (formats_known f hf).2.2.1
  have heq : decodePacked fl f contents nb out = _ := decodePacked_eq hf hnb hbytes out
  constructor
  · intro h b hb e he
    have hlt : b * f.size + e < nb * f.size := by
      have hnext : (b + 1) * f.size ≤ nb * f.size := Nat.mul_le_mul_right f.size hb
      rw [Nat.succ_mul] at hnext
      omega
    have hdiv : (b * f.size + e) / f.size = b := by
      rw [Nat.mul_comm, Nat.mul_add_div hsize, Nat.div_eq_of_lt he, Nat.add_zero]
    have hmod : (b * f.size + e) % f.size = e := by
      rw [Nat.mul_comm, Nat.mul_add_mod, Nat.mod_eq_of_lt he]
    have hvalue := h.values (b * f.size + e) hlt
    simpa only [heq, if_pos hlt, packedElement, hdiv, hmod] using hvalue
  · intro h
    refine ⟨fun _ => by rw [heq], fun i hi => ?_, Format.positions_nodup hf⟩
    have hb : i / f.size < nb := (Nat.div_lt_iff_lt_mul hsize).mpr hi
    simp only [heq, if_pos hi]
    exact h _ hb _ (Nat.mod_lt i hsize)

theorem inverted_iff_standard (hf : f ∈ formats) (hnb : 0 < nb) (hbytes : nb * f.bytes < 2 ^ 64)
    (out : Nat → K) (hnot : ¬ (f.type = 6 ∨ f.type = 7))
    (hreads : ∀ (m : Ptr) (e : Nat), e < f.size →
      blockElement fl f.type m e = reading fl f m e) :
    Inverted fl f contents nb out ↔ ∀ b < nb, FifthBits fl f (contents b) := by
  rw [inverted_iff_blocks hf hnb hbytes out]
  exact iff_of_true (fun b _ e he => blockElement_packed hf hreads b he)
    fun b _ htype => absurd htype hnot

/-- The code that is decoded for the element `e` of a block of Q5_0 or Q5_1. -/
def decodedCode (c : Contents f) (e : Nat) : Nat :=
  c.code e % 16 + 16 * (c.code (fifthBit e) / 16)

theorem blockElement_q5 (hf : f ∈ formats) (hsize : f.size = 32) {oh os : Nat}
    (hpos : ∀ e, f.codePos e = run (os + e % 16) (4 * (e / 16)) 4 ++ run oh e 1)
    (hreads : ∀ (m : Ptr) (e : Nat), e < 32 → blockElement fl f.type m e =
      scaled fl f (UInt16.ofNat (readBits m f.dPos)) (UInt16.ofNat (readBits m f.mPos))
        (readBits m (f.scalePos (f.group e))) (readBits m (f.minPos (f.group e)))
        (readBits m (run (os + e % 16) (4 * (e / 16)) 4) +
          2 ^ 4 * readBits m (run oh (fifthBit e) 1)))
    (b : Nat) {e : Nat} (he : e < 32) :
    blockElement fl f.type ((f.packed contents).plus (b * f.bytes)) e =
      scaled fl f (contents b).d (contents b).m ((contents b).scale (f.group e))
        ((contents b).min (f.group e)) (decodedCode (contents b) e) := by
  have hsplit : ∀ e < 32, (contents b).code e =
      readBits ((f.packed contents).plus (b * f.bytes)) (run (os + e % 16) (4 * (e / 16)) 4) +
        2 ^ 4 * readBits ((f.packed contents).plus (b * f.bytes)) (run oh e 1) := by
    intro e he
    rw [← readBits_code hf b (by omega), hpos, readBits_append, length_run]
  have hlow : readBits ((f.packed contents).plus (b * f.bytes))
      (run (os + e % 16) (4 * (e / 16)) 4) = (contents b).code e % 16 := by
    have hlt : readBits ((f.packed contents).plus (b * f.bytes))
        (run (os + e % 16) (4 * (e / 16)) 4) < 2 ^ 4 := by
      simpa using readBits_lt (run (os + e % 16) (4 * (e / 16)) 4)
    rw [hsplit e he]
    omega
  have hhigh : readBits ((f.packed contents).plus (b * f.bytes)) (run oh (fifthBit e) 1) =
      (contents b).code (fifthBit e) / 16 := by
    have hlt : readBits ((f.packed contents).plus (b * f.bytes))
        (run (os + fifthBit e % 16) (4 * (fifthBit e / 16)) 4) < 2 ^ 4 := by
      simpa using readBits_lt (run (os + fifthBit e % 16) (4 * (fifthBit e / 16)) 4)
    have hfifth : fifthBit e < 32 := by
      unfold fifthBit
      omega
    rw [hsplit (fifthBit e) hfifth]
    omega
  obtain ⟨hd, hm, hscale, hmin⟩ := readBits_numbers contents hf b (hsize ▸ he)
  rw [hreads _ e he, hd, hm, hscale, hmin, hlow, hhigh, UInt16.ofNat_toNat, UInt16.ofNat_toNat]
  rfl

theorem fifthBits_iff (hsize : f.size = 32) (hlen : ∀ e, (f.codePos e).length = 5)
    (htype : f.type = 6 ∨ f.type = 7) (c : Contents f) :
    FifthBits fl f c ↔ ∀ e < 32, vgHalfToFloat fl c.d = 0 ∨ decodedCode c e = c.code e := by
  have hlt : ∀ e < 32, c.code e < 32 := fun e he => by
    simpa [hlen] using c.code_lt e (hsize ▸ he)
  have hbit : ∀ e < 32, ∀ e' < 32, (c.code e).testBit 4 = (c.code e').testBit 4 ↔
      c.code e / 16 = c.code e' / 16 := by
    intro e he e' he'
    have h := hlt e he
    have h' := hlt e' he'
    rw [Nat.testBit_eq_decide_div_mod_eq, Nat.testBit_eq_decide_div_mod_eq, decide_eq_decide]
    omega
  constructor
  · intro h e he
    rcases h htype with hzero | hbits
    · exact .inl hzero
    · refine .inr ?_
      rw [decodedCode]
      by_cases hlow : e < 16
      · rw [show fifthBit e = e by unfold fifthBit; omega]
        omega
      · have heq := (hbit (16 + (e - 16)) (by omega) (12 + (e - 16)) (by omega)).mp
          (hbits (e - 16) (by omega))
        rw [show fifthBit e = 12 + (e - 16) by unfold fifthBit; omega, ← heq,
          show 16 + (e - 16) = e by omega]
        omega
  · intro h _
    by_cases hzero : vgHalfToFloat fl c.d = 0
    · exact .inl hzero
    · refine .inr fun j hj => (hbit _ (by omega) _ (by omega)).mpr ?_
      have hcode := (h (16 + j) (by omega)).resolve_left hzero
      rw [decodedCode, show fifthBit (16 + j) = 12 + j by unfold fifthBit; omega] at hcode
      omega

variable [IsDomain K] [CharZero K]

/-- In a format without scales of its own, the element tells the code, unless `d` is zero. -/
theorem scaled_inj {bias : Int} (hscale : ∀ s, f.scaleOf s = 1) (hcode : ∀ c, f.codeOf c = c - bias)
    (d m : UInt16) (s mn c c' : Nat) :
    scaled fl f d m s mn c = scaled fl f d m s mn c' ↔ vgHalfToFloat fl d = 0 ∨ c = c' := by
  rw [scaled, scaled, add_left_inj, hscale, Int.cast_one, mul_one, mul_eq_mul_left_iff, or_comm,
    hcode, hcode, Int.cast_inj]
  exact or_congr_right (by omega)

theorem inverted_iff_q5 (hf : f ∈ formats) (hnb : 0 < nb) (hbytes : nb * f.bytes < 2 ^ 64)
    (out : Nat → K) {bias : Int} (hsize : f.size = 32) (htype : f.type = 6 ∨ f.type = 7)
    (hscale : ∀ s, f.scaleOf s = 1) (hcode : ∀ c, f.codeOf c = c - bias) {oh os : Nat}
    (hpos : ∀ e, f.codePos e = run (os + e % 16) (4 * (e / 16)) 4 ++ run oh e 1)
    (hreads : ∀ (m : Ptr) (e : Nat), e < 32 → blockElement fl f.type m e =
      scaled fl f (UInt16.ofNat (readBits m f.dPos)) (UInt16.ofNat (readBits m f.mPos))
        (readBits m (f.scalePos (f.group e))) (readBits m (f.minPos (f.group e)))
        (readBits m (run (os + e % 16) (4 * (e / 16)) 4) +
          2 ^ 4 * readBits m (run oh (fifthBit e) 1))) :
    Inverted fl f contents nb out ↔ ∀ b < nb, FifthBits fl f (contents b) := by
  have hlen : ∀ e, (f.codePos e).length = 5 := fun e => by simp [hpos]
  rw [inverted_iff_blocks hf hnb hbytes out]
  refine forall₂_congr fun b _ => ?_
  rw [fifthBits_iff hsize hlen htype, hsize]
  refine forall₂_congr fun e he => ?_
  rw [blockElement_q5 hf hsize hpos hreads b he]
  exact scaled_inj hscale hcode _ _ _ _ _ _

/-- Decoding inverts packing exactly where no fifth bit is taken from an element that differs in
it. -/
theorem inverted_iff (hf : f ∈ formats) (contents : Nat → Contents f)
    (hbytes : nb * f.bytes < 2 ^ 64) (out : Nat → K) :
    Inverted fl f contents nb out ↔ ∀ b < nb, FifthBits fl f (contents b) := by
  rcases Nat.eq_zero_or_pos nb with rfl | hnb
  · exact iff_of_true ⟨fun h => absurd rfl h, fun i hi => absurd hi (by omega),
      Format.positions_nodup hf⟩ fun b hb => absurd hb (by omega)
  have hmem := hf
  simp only [formats, List.mem_cons, List.not_mem_nil, or_false] at hmem
  rcases hmem with rfl | rfl | rfl | rfl | rfl | rfl | rfl | rfl | rfl | rfl | rfl | rfl | rfl
  · exact inverted_iff_standard hf hnb hbytes out (by decide) fun _ _ he => reads_q4_0 he
  · exact inverted_iff_standard hf hnb hbytes out (by decide) fun _ _ he => reads_q4_1 he
  · exact inverted_iff_q5 hf hnb hbytes out rfl (.inl rfl) (fun _ => rfl) (fun _ => rfl)
      (fun _ => rfl) fun _ _ he => reads_q5_0 he
  · exact inverted_iff_q5 hf hnb hbytes out rfl (.inr rfl) (fun _ => rfl)
      (fun c => (sub_zero (c : Int)).symm) (fun _ => rfl) fun _ _ he => reads_q5_1 he
  · exact inverted_iff_standard hf hnb hbytes out (by decide) fun _ _ _ => reads_q8_0
  · exact inverted_iff_standard hf hnb hbytes out (by decide) fun _ _ _ => reads_q2_K
  · exact inverted_iff_standard hf hnb hbytes out (by decide) fun _ _ he => reads_q3_K he
  · exact inverted_iff_standard hf hnb hbytes out (by decide) fun _ _ he => reads_q4_K he
  · exact inverted_iff_standard hf hnb hbytes out (by decide) fun _ _ he => reads_q5_K he
  · exact inverted_iff_standard hf hnb hbytes out (by decide) fun _ _ _ => reads_q6_K
  · exact inverted_iff_standard hf hnb hbytes out (by decide) fun _ _ _ => reads_tq2_0
  · exact inverted_iff_standard hf hnb hbytes out (by decide) fun _ _ _ => reads_q1_0
  · exact inverted_iff_standard hf hnb hbytes out (by decide) fun _ _ _ => reads_q2_0

end Inverts

section Examples

/-- A block of Q5_0 with the scale one and the given codes. -/
def unitQ5_0 (code : Nat → Nat) (h : ∀ e < 32, code e < 32) : Contents q5_0 where
  d := 0x3C00
  m := 0
  scale _ := 0
  min _ := 0
  code := code
  m_lt := by decide
  scale_lt := by decide
  min_lt := by decide
  code_lt := h

/-- Fifth bits that repeat every four elements. -/
def periodicBlock : Contents q5_0 := unitQ5_0 (fun e => e / 2 + 16 * (e % 4 / 2)) (by decide)

/-- Of the upper half only the first element has its fifth bit set. -/
def firstUpperBlock : Contents q5_0 := unitQ5_0 (fun e => if e = 16 then 16 else 0) (by decide)

theorem inverted_periodic : Inverted exactFloats q5_0 (fun _ => periodicBlock) 1 0 :=
  (inverted_iff (by simp [formats]) (fun _ => periodicBlock) (by decide) 0).mpr
    fun _ _ _ => .inr (by decide)

/-- The element 16 has the code 0 and comes back as -16. -/
theorem firstUpper_not_inverted : ¬ ∀ (f : Format) (_ : f ∈ formats) (contents : Nat → Contents f)
    (nb : Nat) (_ : nb * f.bytes < 2 ^ 64) (out : Nat → ℚ),
    Inverted exactFloats f contents nb out := by
  intro h
  have hvalue := (h q5_0 (by simp [formats]) (fun _ => firstUpperBlock) 1 (by decide) 0).values 16
    (by decide)
  revert hvalue
  decide +kernel

end Examples

end VgEngine.Quant
