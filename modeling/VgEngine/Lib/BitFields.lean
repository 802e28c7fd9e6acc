import Mathlib.Data.List.Basic
import Mathlib.Data.List.Nodup
import Mathlib.Data.List.Pairwise
import Mathlib.Data.Nat.Bitwise
import Mathlib.Tactic.Ring

/-! Numbers packed into the bits of a memory. A field is the list of the positions of its bits,
lowest first, and need not be contiguous. -/
namespace VgEngine.Lib

/-- The bit `p` of a memory, from the least significant bit of each byte up. -/
def bitAt (m : Nat → UInt8) (p : Nat) : Bool := (m (p / 8)).toNat.testBit (p % 8)

/-- The number with the given binary digits, lowest first. -/
def ofDigits : List Bool → Nat
  | [] => 0
  | b :: bs => b.toNat + 2 * ofDigits bs

/-- The number at the positions `ps`. -/
def readBits (m : Nat → UInt8) (ps : List Nat) : Nat := ofDigits (ps.map (bitAt m))

/-- A number and the positions of its bits. -/
structure Field where
  positions : List Nat
  value : Nat

/-- The bit that the field puts at `p`, zero where it has none. -/
def Field.bit (f : Field) (p : Nat) : Bool :=
  f.positions.zipIdx.any fun q => q.1 == p && f.value.testBit q.2

def packBit (fs : List Field) (p : Nat) : Bool := fs.any fun f => f.bit p

/-- The memory in which every field has its number and all other bits are zero. -/
def pack (fs : List Field) (a : Nat) : UInt8 :=
  UInt8.ofNat (ofDigits ((List.range 8).map fun k => packBit fs (8 * a + k)))

def allPositions (fs : List Field) : List Nat := fs.flatMap Field.positions

section Digits

theorem ofDigits_append (xs ys : List Bool) :
    ofDigits (xs ++ ys) = ofDigits xs + 2 ^ xs.length * ofDigits ys := by
  induction xs with
  | nil => simp [ofDigits]
  | cons b xs ih =>
    rw [List.cons_append, ofDigits, ih, ofDigits, List.length_cons]
    ring

theorem ofDigits_lt (bs : List Bool) : ofDigits bs < 2 ^ bs.length := by
  induction bs with
  | nil => simp [ofDigits]
  | cons b bs ih =>
    have hb : b.toNat < 2 := b.toNat_lt
    rw [ofDigits, List.length_cons, Nat.pow_succ]
    omega

theorem testBit_ofDigits (bs : List Bool) (k : Nat) :
    (ofDigits bs).testBit k = bs[k]?.getD false := by
  induction bs generalizing k with
  | nil => simp [ofDigits]
  | cons b bs ih =>
    rw [ofDigits]
    cases k with
    | zero => cases b <;> simp [Nat.testBit_zero]
    | succ k =>
      have hhalf : (b.toNat + 2 * ofDigits bs) / 2 = ofDigits bs := by
        have hb : b.toNat < 2 := b.toNat_lt
        omega
      rw [Nat.testBit_succ, hhalf, ih, List.getElem?_cons_succ]

/-- The binary digits of a number from the bit `s` on. -/
theorem ofDigits_testBit (v s n : Nat) :
    ofDigits ((List.range' s n).map v.testBit) = v / 2 ^ s % 2 ^ n := by
  apply Nat.eq_of_testBit_eq
  intro k
  rw [testBit_ofDigits, Nat.testBit_mod_two_pow, Nat.testBit_div_two_pow]
  by_cases hk : k < n
  · simp [hk, Nat.add_comm]
  · simp [hk]

end Digits

section Read

variable {m : Nat → UInt8}

@[simp] theorem readBits_nil : readBits m [] = 0 := rfl

@[simp] theorem readBits_append (ps qs : List Nat) :
    readBits m (ps ++ qs) = readBits m ps + 2 ^ ps.length * readBits m qs := by
  rw [readBits, List.map_append, ofDigits_append, List.length_map]
  rfl

theorem readBits_lt (ps : List Nat) : readBits m ps < 2 ^ ps.length := by
  simpa [readBits] using ofDigits_lt (ps.map (bitAt m))

/-- A run of bits within one byte. -/
theorem readBits_run {a s n : Nat} (h : s + n ≤ 8) :
    readBits m (List.range' (8 * a + s) n) = (m a).toNat / 2 ^ s % 2 ^ n := by
  rw [readBits, ← ofDigits_testBit, ← List.map_add_range', List.map_map]
  refine congrArg ofDigits (List.map_congr_left fun k hk => ?_)
  have hlt : k < 8 := by
    have := List.mem_range'_1.mp hk
    omega
  have hdiv : (8 * a + k) / 8 = a := by omega
  have hmod : (8 * a + k) % 8 = k := by omega
  simp only [Function.comp_apply, bitAt, hdiv, hmod]

/-- A 16-bit word, its low byte first. -/
theorem readBits_word (a : Nat) :
    readBits m (List.range' (8 * a) 16) = (m a).toNat + 256 * (m (a + 1)).toNat := by
  have hsplit : List.range' (8 * a) 16 =
      List.range' (8 * a + 0) 8 ++ List.range' (8 * (a + 1) + 0) 8 :=
    (List.range'_append_1 (s := 8 * a) (m := 8) (n := 8)).symm
  have hlow : (m a).toNat < 256 := (m a).toNat_lt
  have hhigh : (m (a + 1)).toNat < 256 := (m (a + 1)).toNat_lt
  rw [hsplit, readBits_append, readBits_run (by omega), readBits_run (by omega)]
  simp only [List.length_range']
  omega

theorem readBits_congr {m' : Nat → UInt8} {ps : List Nat} (h : ∀ p ∈ ps, bitAt m p = bitAt m' p) :
    readBits m ps = readBits m' ps :=
  congrArg ofDigits (List.map_congr_left h)

end Read

section Pack

variable {fs : List Field}

theorem Field.bit_of_mem {f : Field} (hn : f.positions.Nodup) {k p : Nat}
    (hk : f.positions[k]? = some p) : f.bit p = f.value.testBit k := by
  rw [Field.bit, Bool.eq_iff_iff, List.any_eq_true]
  constructor
  · rintro ⟨⟨q, k'⟩, hq, hbit⟩
    obtain ⟨rfl, hbit'⟩ : q = p ∧ f.value.testBit k' = true := by simpa using hbit
    have hq' : f.positions[k']? = some q := List.mem_zipIdx_iff_getElem?.mp hq
    have hlt : k < f.positions.length := (List.getElem?_eq_some_iff.mp hk).1
    have hkk : k = k' := (List.getElem?_inj hlt hn).mp (hk.trans hq'.symm)
    exact hkk ▸ hbit'
  · intro hbit
    exact ⟨(p, k), List.mem_zipIdx_iff_getElem?.mpr hk, by simpa using hbit⟩

theorem Field.bit_of_not_mem {f : Field} {p : Nat} (h : p ∉ f.positions) : f.bit p = false := by
  rw [Field.bit, List.any_eq_false]
  rintro ⟨q, k⟩ hq hbit
  obtain ⟨rfl, -⟩ : q = p ∧ f.value.testBit k = true := by simpa using hbit
  exact h (List.mem_of_getElem? (List.mem_zipIdx_iff_getElem?.mp hq))

theorem packBit_of_mem (hn : (allPositions fs).Nodup) {f : Field} (hf : f ∈ fs) {k p : Nat}
    (hk : f.positions[k]? = some p) : packBit fs p = f.value.testBit k := by
  obtain ⟨hnodup, hdisjoint⟩ := List.nodup_flatMap.mp hn
  have hp : p ∈ f.positions := List.mem_of_getElem? hk
  have hown : f.bit p = f.value.testBit k := Field.bit_of_mem (hnodup f hf) hk
  rw [← hown, packBit, Bool.eq_iff_iff, List.any_eq_true]
  constructor
  · rintro ⟨g, hg, hbit⟩
    have hpg : p ∈ g.positions := by
      by_contra hnot
      rw [Field.bit_of_not_mem hnot] at hbit
      cases hbit
    by_contra hne
    have hfg : f ≠ g := fun heq => hne (heq ▸ hbit)
    have hsymm : Std.Symm (Function.onFun List.Disjoint Field.positions) :=
      ⟨fun _ _ h _ hg hf => h hf hg⟩
    exact hdisjoint.forall hf hg hfg hp hpg
  · exact fun hbit => ⟨f, hf, hbit⟩

theorem bitAt_pack (p : Nat) : bitAt (pack fs) p = packBit fs p := by
  have hlt : ofDigits ((List.range 8).map fun k => packBit fs (8 * (p / 8) + k)) < 256 := by
    simpa using ofDigits_lt ((List.range 8).map fun k => packBit fs (8 * (p / 8) + k))
  have hmod : p % 8 < 8 := Nat.mod_lt p (by decide)
  rw [bitAt, pack, UInt8.toNat_ofNat_of_lt' hlt, testBit_ofDigits]
  simp [hmod, Nat.div_add_mod]

/-- Every field is read back, when no two share a position and each number fits. -/
theorem readBits_pack (hn : (allPositions fs).Nodup) {f : Field} (hf : f ∈ fs)
    (hfits : f.value < 2 ^ f.positions.length) : readBits (pack fs) f.positions = f.value := by
  apply Nat.eq_of_testBit_eq
  intro k
  rw [readBits, testBit_ofDigits, List.getElem?_map]
  cases hk : f.positions[k]? with
  | none =>
    have hle : f.positions.length ≤ k := List.getElem?_eq_none_iff.mp hk
    have hzero : f.value.testBit k = false :=
      Nat.testBit_lt_two_pow (hfits.trans_le (Nat.pow_le_pow_right (by decide) hle))
    simp [hzero]
  | some p => simp [bitAt_pack, packBit_of_mem hn hf hk]

end Pack

section Blocks

/-- Packed blocks of `size` bytes, one after the other. -/
def packBlocks (size : Nat) (fields : Nat → List Field) (a : Nat) : UInt8 :=
  pack (fields (a / size)) (a % size)

variable {size : Nat} {fields : Nat → List Field}

theorem packBlocks_at {a : Nat} (b : Nat) (ha : a < size) :
    packBlocks size fields (b * size + a) = pack (fields b) a := by
  have hdiv : (b * size + a) / size = b := by
    rw [Nat.mul_comm, Nat.mul_add_div (by omega), Nat.div_eq_of_lt ha, Nat.add_zero]
  have hmod : (b * size + a) % size = a := by rw [Nat.mul_comm, Nat.mul_add_mod, Nat.mod_eq_of_lt ha]
  rw [packBlocks, hdiv, hmod]

/-- The fields of the block `b` are read back at its own address. -/
theorem readBits_packBlocks (size : Nat) (fields : Nat → List Field) (b : Nat)
    (hn : (allPositions (fields b)).Nodup) {f : Field} (hf : f ∈ fields b) (hbound : ∀ p ∈ f.positions, p < 8 * size)
    (hfits : f.value < 2 ^ f.positions.length) :
    readBits (fun a => packBlocks size fields (b * size + a)) f.positions = f.value := by
  rw [← readBits_pack hn hf hfits]
  refine readBits_congr fun p hp => ?_
  have hlt : p / 8 < size := by
    have := hbound p hp
    omega
  simp only [bitAt, packBlocks_at b hlt]

end Blocks

section Disjoint

/-- Whether the positions differ pairwise: `seen` has a bit for each one met before. -/
def distinctFrom : List Nat → Nat → Bool
  | [], _ => true
  | p :: ps, seen => !seen.testBit p && distinctFrom ps (seen ||| 2 ^ p)

theorem nodup_of_distinctFrom {ps : List Nat} {seen : Nat} (h : distinctFrom ps seen = true) :
    ps.Nodup ∧ ∀ p ∈ ps, seen.testBit p = false := by
  induction ps generalizing seen with
  | nil => exact ⟨List.nodup_nil, fun p hp => absurd hp List.not_mem_nil⟩
  | cons p ps ih =>
    rw [distinctFrom, Bool.and_eq_true, Bool.not_eq_true'] at h
    obtain ⟨hn, hfresh⟩ := ih h.2
    have hsplit : ∀ q ∈ ps, seen.testBit q = false ∧ (2 ^ p).testBit q = false := fun q hq => by
      simpa [Nat.testBit_or] using hfresh q hq
    refine ⟨List.nodup_cons.mpr ⟨fun hp => ?_, hn⟩, ?_⟩
    · have hown := (hsplit p hp).2
      rw [Nat.testBit_two_pow_self] at hown
      cases hown
    · intro q hq
      rcases List.mem_cons.mp hq with rfl | hq
      · exact h.1
      · exact (hsplit q hq).1

end Disjoint

end VgEngine.Lib
