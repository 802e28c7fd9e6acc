import VgEngine.Vulkan.MatvecK
import VgEngine.Vulkan.MatvecExact

/-! The shaders over the K-quants compute in each row the product with the row that
`vg_dequantize_row` decodes, and use every weight of it once. -/
namespace VgEngine.Vulkan
open VgEngine.Lib VgEngine.Quant

section Blocks

/-- The words hold the first `n` bytes from `p` on. -/
def HoldsBytes (n : Nat) (p : Ptr) (sblk : Nat → UInt32) : Prop :=
  ∀ i < n, byteOf (sblk (i / 4)) (i % 4) = p i

variable {n : Nat} {p : Ptr} {sblk : Nat → UInt32}

theorem pb_byte (sblk : Nat → UInt32) (i : Nat) : pb sblk i = (byteOf (sblk (i / 4)) (i % 4)).toUInt32 := by
  have hword : i >>> 2 = i / 4 := Nat.shiftRight_eq_div_pow i 2
  have hbyte : i &&& 3 = i % 4 := Nat.and_two_pow_sub_one_eq_mod i 2
  rw [pb, byteOf, hword, hbyte, Nat.mul_comm 8]
  apply UInt32.toNat_inj.1
  rw [UInt32.toNat_and, UInt8.toNat_toUInt32, UInt32.toNat_toUInt8]
  exact Nat.and_two_pow_sub_one_eq_mod _ 8

theorem HoldsBytes.pb (h : HoldsBytes n p sblk) {i : Nat} (hi : i < n) :
    Vulkan.pb sblk i = (p i).toUInt32 := by
  rw [pb_byte, h i hi]

theorem HoldsBytes.sbyte (h : HoldsBytes n p sblk) {i : Nat} (hi : i < n) :
    Vulkan.sbyte sblk i = int8 (p i) := by
  unfold Vulkan.sbyte
  rw [h.pb hi, int8_eq, UInt8.toNat_toUInt32]
  unfold signed8
  dsimp only
  split_ifs <;> omega

theorem toNat_shl_byte {a : UInt32} {k : Nat} (hk : k < 32) (ha : a.toNat < 2 ^ (32 - k)) :
    (a <<< UInt32.ofNat k).toNat = a.toNat <<< k := by
  have hshift : (UInt32.ofNat k).toNat % 32 = k := by
    rw [UInt32.toNat_ofNat']
    omega
  rw [UInt32.toNat_shiftLeft, hshift, Nat.mod_eq_of_lt]
  rw [Nat.shiftLeft_eq]
  calc a.toNat * 2 ^ k < 2 ^ (32 - k) * 2 ^ k := Nat.mul_lt_mul_of_pos_right ha (Nat.two_pow_pos k)
    _ = 2 ^ 32 := by rw [← Nat.pow_add, Nat.sub_add_cancel hk.le]

/-- Two bytes that make up a half. -/
theorem HoldsBytes.half (h : HoldsBytes n p sblk) {o : Nat} (ho : o + 1 < n) :
    Vulkan.pb sblk o ||| Vulkan.pb sblk (o + 1) <<< (8 : UInt32) = (p.u16 o).toUInt32 := by
  have hlow : (p o).toNat < 256 := (p o).toNat_lt
  have hhigh : (p (o + 1)).toNat < 256 := (p (o + 1)).toNat_lt
  rw [h.pb (by omega), h.pb ho]
  apply UInt32.toNat_inj.1
  rw [UInt32.toNat_or, show (8 : UInt32) = UInt32.ofNat 8 from rfl,
    toNat_shl_byte (by decide) (by rw [UInt8.toNat_toUInt32]; omega), UInt8.toNat_toUInt32,
    UInt8.toNat_toUInt32, or_shiftLeft hlow, UInt16.toNat_toUInt32, Ptr.u16, UInt16.toNat_ofNat']
  simp only [Bytes.leNat]
  omega

end Blocks

section Takes

variable {p : Ptr} {sblk : Nat → UInt32} {g lane : Nat}

/-- The scale and the minimum of a group, from the words. -/
theorem HoldsBytes.scale (h : HoldsBytes 144 p sblk) (hg : g < 8) :
    (if g < 4 then Vulkan.pb sblk (4 + g) &&& 63
      else (Vulkan.pb sblk (8 + g) &&& 0xF) |||
        (Vulkan.pb sblk g >>> (6 : UInt32)) <<< (4 : UInt32)).toNat =
      (getScaleMinK4 g (p.plus 4)).1 := by
  unfold getScaleMinK4
  split_ifs with hlow
  · rw [h.pb (by omega), UInt32.toNat_and, UInt8.toNat_toUInt32]
    rfl
  · have hbyte : (p g).toNat < 256 := (p g).toNat_lt
    have hshift : ((p g).toUInt32 >>> (6 : UInt32)).toNat = (p g).toNat >>> 6 := rfl
    have hsmall : (p g).toNat >>> 6 < 2 ^ (32 - 4) := by
      rw [Nat.shiftRight_eq_div_pow]
      omega
    have hplace : p.plus 4 (g - 4) = p g := congrArg p (by omega)
    have hnext : p.plus 4 (g + 4) = p (8 + g) := congrArg p (by omega)
    rw [h.pb (by omega), h.pb (by omega), UInt32.toNat_or, UInt32.toNat_and,
      show (4 : UInt32) = UInt32.ofNat 4 from rfl, toNat_shl_byte (by decide) (by rwa [hshift]),
      hshift, UInt8.toNat_toUInt32, hplace, hnext]
    rfl

theorem HoldsBytes.minimum (h : HoldsBytes 144 p sblk) (hg : g < 8) :
    (if g < 4 then Vulkan.pb sblk (8 + g) &&& 63
      else (Vulkan.pb sblk (8 + g) >>> (4 : UInt32)) |||
        (Vulkan.pb sblk (4 + g) >>> (6 : UInt32)) <<< (4 : UInt32)).toNat =
      (getScaleMinK4 g (p.plus 4)).2 := by
  have hnext : p.plus 4 (g + 4) = p (8 + g) := congrArg p (by omega)
  unfold getScaleMinK4
  split_ifs with hlow
  · rw [h.pb (by omega), UInt32.toNat_and, UInt8.toNat_toUInt32, hnext]
    rfl
  · have hbyte : (p (4 + g)).toNat < 256 := (p (4 + g)).toNat_lt
    have hshift : ((p (4 + g)).toUInt32 >>> (6 : UInt32)).toNat = (p (4 + g)).toNat >>> 6 := rfl
    have hcodes : ((p (8 + g)).toUInt32 >>> (4 : UInt32)).toNat = (p (8 + g)).toNat >>> 4 := rfl
    have hsmall : (p (4 + g)).toNat >>> 6 < 2 ^ (32 - 4) := by
      rw [Nat.shiftRight_eq_div_pow]
      omega
    rw [h.pb (by omega), h.pb (by omega), UInt32.toNat_or, hcodes,
      show (4 : UInt32) = UInt32.ofNat 4 from rfl, toNat_shl_byte (by decide) (by rwa [hshift]),
      hshift, hnext]
    rfl

/-- The code of an element, from the byte that it shares with another. -/
theorem HoldsBytes.code (h : HoldsBytes 144 p sblk) (hg : g < 8) (hlane : lane < 32) :
    (if g &&& 1 = 0 then Vulkan.pb sblk (16 + 32 * (g >>> 1) + lane) &&& 0xF
      else Vulkan.pb sblk (16 + 32 * (g >>> 1) + lane) >>> (4 : UInt32)).toNat =
      nibble (g % 2) (((p.plus 16).plus (g / 2 * 32)) lane) := by
  have hat : ((p.plus 16).plus (g / 2 * 32)) lane = p (16 + 32 * (g / 2) + lane) :=
    congrArg p (by omega)
  rw [Nat.and_one_is_mod, Nat.shiftRight_one, h.pb (by omega), hat]
  rcases Nat.mod_two_eq_zero_or_one g with heven | hodd
  · rw [if_pos heven, heven, UInt32.toNat_and, UInt8.toNat_toUInt32]
    rfl
  · rw [if_neg (by omega), hodd]
    rfl

variable {K : Type*} [CommRing K] (fl : Floats K)

/-- A lane takes the element with its own number from each of the eight groups. -/
theorem takeQ4_K_eq (h : HoldsBytes 144 p sblk) (hlane : lane < 32) :
    takeQ4_K fl sblk lane =
      (List.range 8).map fun g => (g * 32 + lane, blockElement fl 12 p (g * 32 + lane)) := by
  unfold takeQ4_K
  dsimp only
  rw [h.half (o := 0) (by decide), h.half (o := 2) (by decide), decodeF16_eq, decodeF16_eq]
  apply List.map_congr_left
  intro g hg
  have hg : g < 8 := List.mem_range.1 hg
  have hpair : (g * 32 + lane) / 64 = g / 2 := by omega
  have hhalf : (g * 32 + lane) % 64 / 32 = g % 2 := by omega
  have hin : (g * 32 + lane) % 64 % 32 = lane := by omega
  have hgroup : 2 * (g / 2) + g % 2 = g := by omega
  rw [h.scale hg, h.minimum hg, h.code hg hlane]
  simp only [blockElement, elemQ4_K, hpair, hhalf, hin, hgroup]
  rfl

/-- The four low bits of an element of Q6_K. -/
theorem lowCode (b : UInt8) {sub : Nat} (hsub : sub < 4) :
    ((b.toUInt32 >>> (if sub &&& 2 ≠ 0 then 4 else 0 : UInt32)) &&& 0xF).toNat =
      nibble (sub / 2) b := by
  have hbyte : b.toNat < 256 := b.toNat_lt
  have hhigh : ((b.toUInt32 >>> (4 : UInt32)) &&& 0xF).toNat = b.toNat >>> 4 := by
    have hshift : (b.toUInt32 >>> (4 : UInt32)).toNat = b.toNat >>> 4 := rfl
    rw [UInt32.toNat_and, hshift, show (0xF : UInt32).toNat = 2 ^ 4 - 1 from rfl,
      Nat.and_two_pow_sub_one_eq_mod, Nat.shiftRight_eq_div_pow]
    omega
  interval_cases sub
  · simp [nibble]
  · simp [nibble]
  · exact hhigh
  · exact hhigh

/-- The two high bits, in their place. -/
theorem highCode (b : UInt8) {sub : Nat} (hsub : sub < 4) :
    (((b.toUInt32 >>> UInt32.ofNat (sub * 2)) &&& 3) <<< (4 : UInt32)).toNat =
      ((b.toNat >>> (2 * sub)) &&& 3) <<< 4 := by
  have hshift : (UInt32.ofNat (sub * 2)).toNat % 32 = 2 * sub := by
    rw [UInt32.toNat_ofNat']
    omega
  have hcode : ((b.toUInt32 >>> UInt32.ofNat (sub * 2)) &&& 3).toNat =
      (b.toNat >>> (2 * sub)) &&& 3 := by
    rw [UInt32.toNat_and, UInt32.toNat_shiftRight, hshift, UInt8.toNat_toUInt32]
    rfl
  have hsmall : (b.toNat >>> (2 * sub)) &&& 3 < 2 ^ (32 - 4) :=
    (Nat.and_lt_two_pow _ (by decide : 3 < 2 ^ 2)).trans (by decide)
  rw [show (4 : UInt32) = UInt32.ofNat 4 from rfl, toNat_shl_byte (by decide) (by rwa [hcode]), hcode]

theorem takeQ6_K_eq (h : HoldsBytes 210 p sblk) (hlane : lane < 32) :
    takeQ6_K fl sblk lane =
      (List.range 8).map fun g => (g * 32 + lane, blockElement fl 14 p (g * 32 + lane)) := by
  have hplanes : ((List.range 2).flatMap fun hp => (List.range 4).map fun sub =>
      (hp * 128 + sub * 32 + lane, elemQ6_K fl (blockQ6_K p) hp sub lane)) =
      (List.range 8).map fun g => (g * 32 + lane, blockElement fl 14 p (g * 32 + lane)) := by
    rw [flatMap_range_map]
    apply List.map_congr_left
    intro g hg
    have hhalf : (g * 32 + lane) / 128 = g / 4 := by omega
    have hplane : (g * 32 + lane) % 128 / 32 = g % 4 := by omega
    have hin : (g * 32 + lane) % 128 % 32 = lane := by omega
    have hplace : g / 4 * 128 + g % 4 * 32 + lane = g * 32 + lane := by omega
    simp only [blockElement, hhalf, hplane, hin, hplace]
  rw [← hplanes]
  unfold takeQ6_K
  dsimp only
  rw [h.half (o := 208) (by decide), decodeF16_eq]
  apply List.flatMap_congr
  intro hp hhp
  have hhp : hp < 2 := List.mem_range.1 hhp
  apply List.map_congr_left
  intro sub hsub
  have hsub : sub < 4 := List.mem_range.1 hsub
  have hql : (p.plus (hp * 64)) (lane + 32 * (sub % 2)) = p (hp * 64 + lane + sub % 2 * 32) :=
    congrArg p (by omega)
  have hqh : ((p.plus 128).plus (hp * 32)) lane = p (128 + (hp * 32 + lane)) :=
    congrArg p (by omega)
  have hsc : ((p.plus 192).plus (hp * 8)) (lane / 16 + 2 * sub) =
      p (192 + hp * 8 + lane / 16 + sub * 2) := congrArg p (by omega)
  have hsixteen : lane >>> 4 = lane / 16 := Nat.shiftRight_eq_div_pow lane 4
  have hodd : sub &&& 1 = sub % 2 := Nat.and_one_is_mod sub
  rw [hodd, hsixteen, h.pb (by omega), h.pb (by omega), h.sbyte (by omega), UInt32.toNat_or,
    lowCode _ hsub, highCode _ hsub, ← hql, ← hqh, ← hsc]
  rfl

/-- Both shaders: a lane takes the elements of a block that are `lane` modulo 32. -/
theorem take_eq (q : KQuant) (h : HoldsBytes q.blockBytes p sblk) (hlane : lane < 32) :
    take fl q sblk lane =
      (List.range 8).map fun g => (g * 32 + lane, blockElement fl q.kind p (g * 32 + lane)) := by
  cases q with
  | q4K => exact takeQ4_K_eq fl h hlane
  | q6K => exact takeQ6_K_eq fl h hlane

end Takes

section Copies

/-- The lane that copies the byte `i` of a block. -/
def owner : KQuant → Nat → Nat
  | .q4K, i => i / 4 % 32
  | .q6K, i => i % 32

variable {q : KQuant} {w : Words} {wdata : Ptr} {base mb grp i : Nat} {l : Nat × Nat}

theorem owner_lt (q : KQuant) (i : Nat) : owner q i < 32 := by
  cases q <;> exact Nat.mod_lt _ (by decide)

theorem load_length (hl : l ∈ lanes) : (load q w base mb l).length ≤ q.steps := by
  obtain ⟨-, hlane⟩ := mem_lanes.1 hl
  cases q with
  | q4K =>
    have hcount : (36 + (32 - 1) - l.2) / 32 ≤ 2 := by omega
    simpa [load, loadQ4_K, strided, KQuant.steps] using hcount
  | q6K =>
    have hcount : (210 + (32 - 1) - l.2) / 32 * 2 ≤ 14 := by omega
    simpa [load, loadQ6_K, strided, KQuant.steps, List.length_flatMap] using hcount

/-- The two accesses for a byte leave the others. -/
theorem atomics_quiet {grp' j : Nat} (hne : ¬(grp' = grp ∧ j = i)) (b : UInt32) :
    ∀ o ∈ [Access.atomicAnd (grp', j / 4) (~~~((0xFF : UInt32) <<< UInt32.ofNat (j % 4 * 8))),
      Access.atomicOr (grp', j / 4) ((b &&& 0xFF) <<< UInt32.ofNat (j % 4 * 8))],
      ∀ v, Access.onByte (grp, i / 4) (i % 4) o v = v := by
  have hother (hcell : (grp', j / 4) = (grp, i / 4)) : j % 4 ≠ i % 4 := by
    obtain ⟨h1, h2⟩ := Prod.mk.inj hcell
    intro h3
    exact hne ⟨h1, by omega⟩
  intro o ho v
  rcases List.mem_cons.1 ho with rfl | ho
  · unfold Access.onByte
    dsimp only
    split_ifs with hcell
    · rw [byteOf_mask (by omega) (by omega), if_neg (hother hcell)]
      exact UInt8.and_neg_one
    · rfl
  · obtain rfl := List.mem_singleton.1 ho
    unfold Access.onByte
    dsimp only
    split_ifs with hcell
    · rw [byteOf_placed _ (by omega) (by omega), if_neg (hother hcell)]
      exact UInt8.or_zero
    · rfl

theorem loadQ6_K_eq : loadQ6_K w base mb l = (strided 210 32 l.2).flatMap fun j =>
    [.atomicAnd (l.1, j / 4) (~~~((0xFF : UInt32) <<< UInt32.ofNat (j % 4 * 8))),
      .atomicOr (l.1, j / 4) (((w (((base + mb * 210) % 2 ^ 32 + j) % 2 ^ 32 / 4) >>>
        UInt32.ofNat (((base + mb * 210) % 2 ^ 32 + j) % 2 ^ 32 % 4 * 8)) &&& 0xFF) <<<
          UInt32.ofNat (j % 4 * 8))] := by
  have hword (n : Nat) : n >>> 2 = n / 4 := Nat.shiftRight_eq_div_pow n 2
  have hbyte (n : Nat) : n &&& 3 = n % 4 := Nat.and_two_pow_sub_one_eq_mod n 2
  unfold loadQ6_K
  simp only [hword, hbyte]

/-- The other lanes leave the byte. -/
theorem load_quiet (hl : l ∈ lanes) (hne : l ≠ (grp, owner q i)) :
    ∀ o ∈ load q w base mb l, ∀ v, Access.onByte (grp, i / 4) (i % 4) o v = v := by
  obtain ⟨-, hlane⟩ := mem_lanes.1 hl
  have hapart (h1 : l.1 = grp) (h2 : owner q i = l.2) : False :=
    hne (Prod.ext h1 h2.symm)
  intro o ho v
  cases q with
  | q4K =>
    obtain ⟨jw, hjw, rfl⟩ := List.mem_map.1 ho
    have hmod := ((mem_strided hlane).1 hjw).2
    apply if_neg
    intro hcell
    obtain ⟨h1, h2⟩ := Prod.mk.inj hcell
    exact hapart h1 (by rw [owner, ← h2]; exact hmod)
  | q6K =>
    rw [load, loadQ6_K_eq] at ho
    obtain ⟨j, hj, ho⟩ := List.mem_flatMap.1 ho
    have hmod := ((mem_strided hlane).1 hj).2
    refine atomics_quiet ?_ _ o ho v
    rintro ⟨h1, rfl⟩
    exact hapart h1 hmod

/-- Its own lane leaves in the byte what the buffer holds. -/
theorem load_own (hi : i < q.blockBytes) (hbase : base % 4 = 0 ∨ q = .q6K)
    (hsmall : base + (mb + 1) * q.blockBytes ≤ 2 ^ 32)
    (hw : HoldsBytes (base + (mb + 1) * q.blockBytes) wdata w) (v : UInt8) :
    (load q w base mb (grp, owner q i)).foldl
      (fun v o => Access.onByte (grp, i / 4) (i % 4) o v) v =
        wdata (base + mb * q.blockBytes + i) := by
  cases q with
  | q4K =>
    have hbase : base % 4 = 0 := hbase.resolve_right nofun
    simp only [KQuant.blockBytes] at hi hsmall hw ⊢
    have hmem : i / 4 ∈ strided 36 32 (i / 4 % 32) :=
      (mem_strided (Nat.mod_lt _ (by decide))).2 ⟨by omega, rfl⟩
    have hplace : ((base >>> 2) + mb * 36 + i / 4) % 2 ^ 32 = (base + mb * 144 + i) / 4 := by
      rw [Nat.shiftRight_eq_div_pow]
      omega
    have hbyte : (base + mb * 144 + i) % 4 = i % 4 := by omega
    rw [load, loadQ4_K, List.foldl_map]
    apply foldl_sets hmem
    · intro u
      rw [Access.onByte, if_pos rfl, hplace, ← hbyte]
      exact hw _ (by omega)
    · intro jw _ hne u
      exact if_neg fun hcell => hne (Prod.mk.inj hcell).2
  | q6K =>
    simp only [KQuant.blockBytes] at hi hsmall hw ⊢
    have hmem : i ∈ strided 210 32 (i % 32) := (mem_strided (Nat.mod_lt _ (by decide))).2 ⟨hi, rfl⟩
    have hblock : (base + mb * 210) % 2 ^ 32 = base + mb * 210 := Nat.mod_eq_of_lt (by omega)
    have hplace : (base + mb * 210 + i) % 2 ^ 32 = base + mb * 210 + i := Nat.mod_eq_of_lt (by omega)
    have hsource := hw (base + mb * 210 + i) (by omega)
    rw [byteOf, Nat.mul_comm 8] at hsource
    rw [load, loadQ6_K_eq, List.foldl_flatMap]
    apply foldl_sets hmem
    · intro u
      rw [List.foldl_cons, List.foldl_cons, List.foldl_nil, Access.onByte, if_pos rfl, Access.onByte,
        if_pos rfl, byteOf_mask (by omega) (by omega), if_pos rfl, byteOf_placed _ (by omega) (by omega),
        if_pos rfl, UInt8.and_zero, UInt8.zero_or, hblock, hplace]
      exact hsource
    · intro j _ hne u
      have hother : ¬(grp = grp ∧ j = i) := fun h => hne h.2
      have hquiet := atomics_quiet hother
        (w (((base + mb * 210) % 2 ^ 32 + j) % 2 ^ 32 / 4) >>>
          UInt32.ofNat (((base + mb * 210) % 2 ^ 32 + j) % 2 ^ 32 % 4 * 8))
      rw [List.foldl_cons, List.foldl_cons, List.foldl_nil, hquiet _ List.mem_cons_self,
        hquiet _ (List.mem_cons_of_mem _ List.mem_cons_self)]

variable {K : Type*} [CommRing K] {b : KBound K} {r : CopyRun q.steps K}

omit [CommRing K] in
/-- The workgroup takes each of its rows in its own place. -/
theorem CopyRun.row_eq {row : Nat} (hlo : r.wg * 8 ≤ row) (hrow : row < b.outDim) (hout : b.outDim < 2 ^ 32) :
    r.row (row - r.wg * 8) = row := by
  rw [CopyRun.row, Nat.add_sub_cancel' hlo]
  exact Nat.mod_eq_of_lt (by omega)

omit [CommRing K] in
/-- After the copy of a block the words of a group hold it. -/
theorem copied (hgrp : grp < 8) (hrow : r.row grp < b.outDim) (hmb : mb < b.inDim / 256)
    (hsize : b.outDim * (b.inDim / 256 * q.blockBytes) < 2 ^ 32)
    (hw : HoldsBytes (b.outDim * (b.inDim / 256 * q.blockBytes)) wdata b.w) :
    HoldsBytes q.blockBytes
      (wdata.plus (r.row grp * (b.inDim / 256 * q.blockBytes) + mb * q.blockBytes))
      (fun j => sharedAfter q b r (mb + 1) (grp, j)) := by
  generalize hbytes : b.inDim / 256 * q.blockBytes = rowBytes at hsize hw ⊢
  have hend : r.row grp * rowBytes + (mb + 1) * q.blockBytes ≤ b.outDim * rowBytes := by
    calc r.row grp * rowBytes + (mb + 1) * q.blockBytes
        ≤ r.row grp * rowBytes + rowBytes :=
          Nat.add_le_add_left (hbytes ▸ Nat.mul_le_mul_right _ hmb) _
      _ = (r.row grp + 1) * rowBytes := (Nat.succ_mul _ _).symm
      _ ≤ b.outDim * rowBytes := Nat.mul_le_mul_right _ hrow
  have hrowBytes : rowBytes % 2 ^ 32 = rowBytes := by
    apply Nat.mod_eq_of_lt
    exact (Nat.le_mul_of_pos_left rowBytes (Nat.zero_lt_of_lt hrow)).trans_lt hsize
  have hbase : r.row grp * rowBytes % 2 ^ 32 = r.row grp * rowBytes := Nat.mod_eq_of_lt (by omega)
  have haligned : r.row grp * rowBytes % 4 = 0 ∨ q = .q6K := by
    cases q with
    | q4K =>
      have hfour : r.row grp * rowBytes = 4 * (r.row grp * (b.inDim / 256) * 36) := by
        rw [← hbytes, KQuant.blockBytes]
        ring
      exact Or.inl (by rw [hfour, Nat.mul_mod_right])
    | q6K => exact Or.inr rfl
  have hload (l : Nat × Nat) (hl : l ∈ lanes) : copyBlock q b r mb l = [] ∨
      ∃ base, copyBlock q b r mb l = load q b.w base mb l := by
    unfold copyBlock
    dsimp only
    split_ifs
    · exact Or.inr ⟨_, rfl⟩
    · exact Or.inl rfl
  intro i hi
  have hmine : (grp, owner q i) ∈ lanes := mem_lanes.2 ⟨hgrp, owner_lt q i⟩
  have hprog : copyBlock q b r mb (grp, owner q i) =
      load q b.w (r.row grp * rowBytes) mb (grp, owner q i) := by
    unfold copyBlock
    dsimp only
    rw [if_pos hrow, hbytes, hrowBytes, hbase]
  have hquiet : ∀ l ∈ r.copy mb, l ≠ (grp, owner q i) → ∀ o ∈ copyBlock q b r mb l, ∀ v,
      Access.onByte (grp, i / 4) (i % 4) o v = v := by
    intro l hl hne
    have hl := r.copy_lanes mb l hl
    rcases hload l hl with hnone | ⟨base, hsome⟩
    · rw [hnone]
      simp
    · rw [hsome]
      exact load_quiet hl hne
  have hturns : (copyBlock q b r mb (grp, owner q i)).length ≤ (r.copy mb).count (grp, owner q i) := by
    rw [hprog]
    exact (load_length hmine).trans (r.copy_turns mb _ hmine)
  let byte (m : Shared) : UInt8 := byteOf (m (grp, i / 4)) (i % 4)
  have hact (o : Access (Nat × Nat)) (m : Shared) :
      byte (o.apply m) = Access.onByte (grp, i / 4) (i % 4) o (byte m) :=
    o.byteOf_apply (grp, i / 4) (i % 4) m
  have hpart := runTurns_part Access.apply hact hquiet hturns (sharedAfter q b r mb)
  change byte (sharedAfter q b r (mb + 1)) = _
  rw [sharedAfter, hpart, hprog, load_own hi haligned (by omega)
    (fun k hk => hw k (Nat.lt_of_lt_of_le hk hend)), Ptr.plus]

/-- The weight `i` of a row. -/
def weightAt (fl : Floats K) (q : KQuant) (wdata : Ptr) (inDim row i : Nat) : K :=
  element fl q.kind (wdata.plus (row * (inDim / 256 * q.blockBytes))) i

theorem element_block (fl : Floats K) (q : KQuant) (p : Ptr) (i : Nat) :
    element fl q.kind p i =
      blockElement fl q.kind (p.plus (i / 256 * q.blockBytes)) (i % 256) := by
  cases q <;> rfl

/-- What a lane takes of a row: the weights that are `lane` modulo 32, each for its own input. -/
theorem laneTakes_eq (fl : Floats K) (hgrp : grp < 8) (hrow : r.row grp < b.outDim)
    (hdim : b.inDim % 256 = 0) (hin : b.inDim < 2 ^ 32)
    (hsize : b.outDim * (b.inDim / 256 * q.blockBytes) < 2 ^ 32)
    (hw : HoldsBytes (b.outDim * (b.inDim / 256 * q.blockBytes)) wdata b.w) {lane : Nat}
    (hlane : lane < 32) :
    laneTakes fl q b r (grp, lane) = (strided b.inDim 32 lane).map fun i =>
      (i, weightAt fl q wdata b.inDim (r.row grp) i) := by
  have hstrided : strided b.inDim 32 lane =
      (List.range (b.inDim / 256 * 8)).map fun e => e * 32 + lane := by
    have hcount : (b.inDim + (32 - 1) - lane) / 32 = b.inDim / 256 * 8 := by omega
    rw [strided, hcount]
    apply List.ext_getElem
    · simp
    · intro e _ _
      simp [Nat.add_comm, Nat.mul_comm]
  have hblocks : laneTakes fl q b r (grp, lane) =
      (List.range (b.inDim / 256)).flatMap fun mb => (List.range 8).map fun g =>
        ((mb * 8 + g) * 32 + lane,
          weightAt fl q wdata b.inDim (r.row grp) ((mb * 8 + g) * 32 + lane)) := by
    unfold laneTakes
    apply List.flatMap_congr
    intro mb hmb
    have hmb : mb < b.inDim / 256 := List.mem_range.1 hmb
    rw [take_eq fl q (copied hgrp hrow hmb hsize hw) hlane, List.map_map]
    apply List.map_congr_left
    intro g hg
    have hg : g < 8 := List.mem_range.1 hg
    have hplace : (mb * 256 + (g * 32 + lane)) % 2 ^ 32 = (mb * 8 + g) * 32 + lane := by omega
    have hblock : ((mb * 8 + g) * 32 + lane) / 256 = mb := by omega
    have hwithin : ((mb * 8 + g) * 32 + lane) % 256 = g * 32 + lane := by omega
    rw [Function.comp_apply, hplace, weightAt, element_block, hblock, hwithin, Ptr.plus_plus]
  rw [hblocks, hstrided, List.map_map, flatMap_range_map fun mb g => _]
  apply List.map_congr_left
  intro e _
  rw [Nat.div_add_mod']
  rfl

end Copies

section Dispatch

variable {K : Type*} [CommRing K] (fl : Floats K) (q : KQuant) {wdata : Ptr} {b : KBound K}

/-- What `vk_matmul` uploads holds the tensor. -/
theorem holdsBytes_upload (wdata : Ptr) (n : Nat) (fresh : Ptr) :
    HoldsBytes n wdata (uploadWords (uploadBytes q wdata n fresh)) := by
  intro i hi
  have hplace : 4 * (i / 4) + i % 4 = i := Nat.div_add_mod i 4
  have hbyte : byteOf (uploadWords (uploadBytes q wdata n fresh) (i / 4)) (i % 4) =
      uploadBytes q wdata n fresh (4 * (i / 4) + i % 4) :=
    byteOf_eq (Nat.mod_lt i (by decide)) fun _ ht => u32_byte _ _ (Nat.mod_lt i (by decide)) ht
  rw [hbyte, hplace]
  exact if_pos hi

/-- The weight is what `vg_dequantize_row` makes of the bytes of the row. -/
theorem weightAt_eq {inDim i : Nat} (hdim : inDim % 256 = 0) (hin : inDim < 2 ^ 32) (hi : i < inDim)
    (row : Nat) (out : Nat → K) :
    weightAt fl q wdata inDim row i =
      (vgDequantizeRow fl q.kind (wdata.plus (row * (inDim / 256 * q.blockBytes)))
        (inDim / 256 * q.blockBytes) out inDim).2 i := by
  have hok : rowStatus q.kind (inDim / 256 * q.blockBytes) inDim = .ok := by
    cases q with
    | q4K =>
      have hinfo : Gguf.quantInfo KQuant.q4K.kind = some ⟨12, 256, 144⟩ := rfl
      exact rowStatus_ok hinfo rfl (Nat.zero_lt_of_lt hi) hin hdim
    | q6K =>
      have hinfo : Gguf.quantInfo KQuant.q6K.kind = some ⟨14, 256, 210⟩ := rfl
      exact rowStatus_ok hinfo rfl (Nat.zero_lt_of_lt hi) hin hdim
  rw [vgDequantizeRow_eq]
  dsimp only
  rw [if_pos ⟨hok, hi⟩, weightAt]

/-- What the dispatch stores at a row is the sum over all of its weights. -/
theorem storeAll_matvecK (hdim : b.inDim % 256 = 0) (hin : b.inDim < 2 ^ 32)
    (hout : b.outDim < 2 ^ 32) (hsize : b.outDim * (b.inDim / 256 * q.blockBytes) < 2 ^ 32)
    (hw : HoldsBytes (b.outDim * (b.inDim / 256 * q.blockBytes)) wdata b.w)
    {runs : List (CopyRun q.steps K)} {stores : List (Nat × K)}
    (hruns : (runs.map fun r => r.wg).Perm (List.range ((b.outDim + 7) / 8)))
    (hstores : stores.Perm (runs.flatMap fun r => matvecKGroup fl q b r)) (y : Nat → K)
    {row : Nat} (hrow : row < b.outDim) :
    storeAll y stores row = ∑ i ∈ Finset.range b.inDim, weightAt fl q wdata b.inDim row i * b.x i := by
  let value (row : Nat) : K := ∑ i ∈ Finset.range b.inDim, weightAt fl q wdata b.inDim row i * b.x i
  change storeAll y stores row = value row
  refine storeAll_groups (by omega) (by omega) hruns hstores ?_ y hrow
  intro r hr row hlo hhi hin'
  have hgrp : row - r.wg * 8 < 8 := by omega
  have hat := r.row_eq hlo hin' hout
  have hrow' : r.row (row - r.wg * 8) < b.outDim := by rwa [hat]
  change _ = ∑ i ∈ Finset.range b.inDim, weightAt fl q wdata b.inDim row i * b.x i
  rw [← sum_strided b.inDim 32 _ (by decide)]
  refine Finset.sum_congr rfl fun lane hlane => ?_
  rw [laneSum, if_pos hrow', laneTakes_eq fl hgrp hrow' hdim hin hsize hw (Finset.mem_range.1 hlane),
    List.foldl_map, foldl_add_list, zero_add, hat]

/-- The shaders compute every row of the product with the decoded weights, whatever the order of the
workgroups, lanes, copies and stores, and the lanes of a row use each of its weights once. -/
theorem matvecK_exact (hdim : b.inDim % 256 = 0) (hin : b.inDim < 2 ^ 32) (hout : b.outDim < 2 ^ 32)
    (hsize : b.outDim * (b.inDim / 256 * q.blockBytes) < 2 ^ 32)
    (hw : HoldsBytes (b.outDim * (b.inDim / 256 * q.blockBytes)) wdata b.w)
    {runs : List (CopyRun q.steps K)} {stores : List (Nat × K)}
    (hruns : (runs.map fun r => r.wg).Perm (List.range ((b.outDim + 7) / 8)))
    (hstores : stores.Perm (runs.flatMap fun r => matvecKGroup fl q b r)) (y out : Nat → K)
    {row : Nat} (hrow : row < b.outDim) :
    let rowBytes := b.inDim / 256 * q.blockBytes
    let weights := (vgDequantizeRow fl q.kind (wdata.plus (row * rowBytes)) rowBytes out b.inDim).2
    storeAll y stores row = ∑ i ∈ Finset.range b.inDim, weights i * b.x i ∧
      ∀ r ∈ runs, r.wg = row / 8 →
        ((List.range 32).flatMap fun lane => laneTakes fl q b r (row % 8, lane)).Perm
          ((List.range b.inDim).map fun i => (i, weights i)) := by
  intro rowBytes weights
  have hweights : ∀ i < b.inDim, weightAt fl q wdata b.inDim row i = weights i := fun i hi =>
    weightAt_eq fl q hdim hin hi row out
  constructor
  · rw [storeAll_matvecK fl q hdim hin hout hsize hw hruns hstores y hrow]
    exact Finset.sum_congr rfl fun i hi => by rw [hweights i (Finset.mem_range.1 hi)]
  · intro r hr hwg
    have hlo : r.wg * 8 ≤ row := by omega
    have hhi : row < r.wg * 8 + 8 := by omega
    have hat := r.row_eq hlo hrow hout
    have hgrp : row - r.wg * 8 = row % 8 := by omega
    rw [hgrp] at hat
    have htakes : ((List.range 32).flatMap fun lane => laneTakes fl q b r (row % 8, lane)) =
        ((List.range 32).flatMap (strided b.inDim 32)).map fun i =>
          (i, weightAt fl q wdata b.inDim row i) := by
      rw [List.map_flatMap]
      apply List.flatMap_congr
      intro lane hlane
      rw [laneTakes_eq fl (Nat.mod_lt row (by decide)) (by rwa [hat]) hdim hin hsize hw
        (List.mem_range.1 hlane), hat]
    have hvalues : ((List.range b.inDim).map fun i => (i, weightAt fl q wdata b.inDim row i)) =
        (List.range b.inDim).map fun i => (i, weights i) := by
      apply List.map_congr_left
      intro i hi
      rw [hweights i (List.mem_range.1 hi)]
    rw [htakes, ← hvalues]
    exact (strided_perm b.inDim 32 (by decide)).map _

/-- A workgroup whose lanes take turns one after the other. -/
def CopyRun.inTurn (q : KQuant) (wg : Nat) : CopyRun q.steps ℚ where
  wg := wg
  schedule := inOrder
  red := 0
  sblk := 0
  copy := fun _ => (List.replicate q.steps lanes).flatten
  copy_lanes := by
    intro _ i hi
    obtain ⟨turns, hturns, hi⟩ := List.mem_flatten.1 hi
    rwa [List.eq_of_mem_replicate hturns] at hi
  copy_turns := by
    intro _ i hi
    rw [List.count_flatten, List.map_replicate, List.count_eq_one_of_mem nodup_lanes hi,
      List.sum_replicate, smul_eq_mul, Nat.mul_one]

/-- Three rows of 210 bytes, so that the last does not start at a word. -/
def threeRows : KBound ℚ where
  w := uploadWords (uploadBytes .q6K (fun i => UInt8.ofNat i) 630 0)
  x := fun i => i
  outDim := 3
  inDim := 256

theorem matvecK_exact_unaligned :
    let weights := (vgDequantizeRow exactFloats 14 (Ptr.plus (fun i => UInt8.ofNat i) (2 * 210)) 210
      0 256).2
    storeAll 0 (matvecKGroup exactFloats .q6K threeRows (CopyRun.inTurn .q6K 0)) 2 =
        ∑ i ∈ Finset.range 256, weights i * (i : ℚ) ∧
      ((List.range 32).flatMap fun lane =>
          laneTakes exactFloats .q6K threeRows (CopyRun.inTurn .q6K 0) (2, lane)).Perm
        ((List.range 256).map fun i => (i, weights i)) := by
  obtain ⟨hrow, htakes⟩ := @matvecK_exact ℚ _ exactFloats .q6K (fun i => UInt8.ofNat i) threeRows
    (by decide) (by decide) (by decide) (by decide) (holdsBytes_upload .q6K _ 630 0)
    [CopyRun.inTurn .q6K 0] _ (.refl _) (by rw [List.flatMap_singleton]) 0 0 2 (by decide)
  exact ⟨hrow, htakes _ List.mem_cons_self rfl⟩

end Dispatch

end VgEngine.Vulkan
