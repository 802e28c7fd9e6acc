import VgEngine.Decode.Rows
import VgEngine.Lib.Stores

/-! The two loops of the output head over the rows of its tensor: one row at a time for floats, and
groups of 256 rows for the other types. The buffers are allocated, and a read fails where its range
leaves the tensor. -/
namespace VgEngine.Decode
open Lib Bytes Gguf Model

/-- What is stored for a vocabulary id: the product with the row at an offset in the tensor, the
product with what the row buffer happens to hold, or `-FLT_MAX`. -/
inductive HeadLogit where
  | product (offset : Nat)
  | stale
  | least
deriving DecidableEq, Repr

/-- The bytes of a row of `D` elements. -/
def rowSize (q : QuantInfo) (D : Nat) : Nat := D / q.blockSize * q.bytesPerBlock

section Loops

variable (t : GgufTensor) (q : QuantInfo) (D nVocab : Nat)

/-- A pass of the loop for floats. Where the 32-bit row size wraps, the row buffer ends before the
row does. -/
def floatLogit (v : Nat) : HeadLogit :=
  let rowBytes := wrap32 (4 * D)
  let offset := v * rowBytes % 2 ^ 64
  if readable t offset rowBytes = true then
    if rowBytes = 4 * D then .product offset else .stale
  else .least

def floatHead : List (Nat × HeadLogit) := (List.range nVocab).map fun v => (v, floatLogit t D v)

/-- The stores for the rows from `v` on that are read at once. The status of
`vg_dequantize_row` is not looked at. -/
def headGroup (v : Nat) : List (Nat × HeadLogit) :=
  let rowBytes := rowSize q D
  let cnt := if nVocab - v < 256 then nVocab - v else 256
  let offset := v * rowBytes % 2 ^ 64
  if readable t offset (cnt * rowBytes) = true then
    (List.range cnt).map fun i =>
      (v + i, if dequantizeStatus q D = .ok then .product (offset + i * rowBytes) else .stale)
  else (List.range cnt).map fun i => (v + i, .least)

/-- The loop over the groups, with as many passes as the fuel allows. -/
def groupedHead : Nat → Nat → Option (List (Nat × HeadLogit))
  | 0, _ => none
  | fuel + 1, v =>
    if v < nVocab then
      (groupedHead fuel ((v + 256) % 2 ^ 32)).map fun rest => headGroup t q D nVocab v ++ rest
    else some []

/-- The stores of the output head. -/
def headStores (fuel : Nat) : Option (List (Nat × HeadLogit)) :=
  if t.ggmlType = 0 then some (floatHead t D nVocab) else groupedHead t q D nVocab fuel 0

/-- Each id has the product with its row where that lies in the tensor, and else `-FLT_MAX`. -/
def rowLogit (v : Nat) : HeadLogit :=
  if (v + 1) * rowSize q D ≤ t.nbytes then .product (v * rowSize q D) else .least

/-- The loop ends, and stores for each id of the vocabulary what its row calls for. -/
def HeadByRows : Prop :=
  ∃ fuel stores, headStores t q D nVocab fuel = some stores ∧
    Fills nVocab (rowLogit t q D) stores

/-- What the loop over groups stores for an id. -/
def groupLogit (v : Nat) : HeadLogit :=
  let start := v / 256 * 256
  let offset := start * rowSize q D % 2 ^ 64
  if readable t offset (min 256 (nVocab - start) * rowSize q D) = true then
    if dequantizeStatus q D = .ok then .product (offset + v % 256 * rowSize q D) else .stale
  else .least

end Loops

section Groups

variable {t : GgufTensor} {q : QuantInfo} {D nVocab : Nat}

theorem mem_headGroup {i : Nat} {s : Nat × HeadLogit} :
    s ∈ headGroup t q D nVocab (256 * i) ↔
      s.1 / 256 = i ∧ s.1 < nVocab ∧ s.2 = groupLogit t q D nVocab s.1 := by
  have hcnt : (if nVocab - 256 * i < 256 then nVocab - 256 * i else 256) =
      min 256 (nVocab - 256 * i) := by
    split_ifs <;> omega
  have hid (j : Nat) (hj : j < min 256 (nVocab - 256 * i)) :
      (256 * i + j) / 256 = i ∧ (256 * i + j) % 256 = j ∧ 256 * i + j < nVocab := by omega
  have hmem (f : Nat → HeadLogit)
      (hf : ∀ j < min 256 (nVocab - 256 * i), f j = groupLogit t q D nVocab (256 * i + j)) :
      s ∈ (List.range (min 256 (nVocab - 256 * i))).map (fun j => (256 * i + j, f j)) ↔
        s.1 / 256 = i ∧ s.1 < nVocab ∧ s.2 = groupLogit t q D nVocab s.1 := by
    rw [List.mem_map]
    constructor
    · rintro ⟨j, hj, rfl⟩
      have hlt := List.mem_range.1 hj
      exact ⟨(hid j hlt).1, (hid j hlt).2.2, hf j hlt⟩
    · rintro ⟨hdiv, hlt, hval⟩
      have hj : s.1 - 256 * i < min 256 (nVocab - 256 * i) := by omega
      have hsum : 256 * i + (s.1 - 256 * i) = s.1 := by omega
      refine ⟨s.1 - 256 * i, List.mem_range.2 hj, Prod.ext hsum ?_⟩
      rw [hval, hf _ hj, hsum]
  unfold headGroup
  simp only [hcnt]
  split_ifs with hread hexpand
  · refine hmem _ fun j hj => ?_
    obtain ⟨hdiv, hmod, -⟩ := hid j hj
    simp only [groupLogit, hdiv, hmod, Nat.mul_comm i 256, if_pos hread, if_pos hexpand]
  · refine hmem _ fun j hj => ?_
    obtain ⟨hdiv, hmod, -⟩ := hid j hj
    simp only [groupLogit, hdiv, hmod, Nat.mul_comm i 256, if_pos hread, if_neg hexpand]
  · refine hmem _ fun j hj => ?_
    obtain ⟨hdiv, hmod, -⟩ := hid j hj
    simp only [groupLogit, hdiv, hmod, Nat.mul_comm i 256, if_neg hread]

/-- The loop goes through the groups that are left. -/
theorem mem_groupedHead (hlast : nVocab ≤ 2 ^ 32 - 256) {fuel i : Nat}
    {stores : List (Nat × HeadLogit)}
    (h : groupedHead t q D nVocab fuel (256 * i) = some stores) {s : Nat × HeadLogit} :
    s ∈ stores ↔ i ≤ s.1 / 256 ∧ s.1 < nVocab ∧ s.2 = groupLogit t q D nVocab s.1 := by
  induction fuel generalizing i stores with
  | zero => cases h
  | succ fuel ih =>
    unfold groupedHead at h
    split_ifs at h with hlt
    · have hnext : (256 * i + 256) % 2 ^ 32 = 256 * (i + 1) := by omega
      rw [hnext] at h
      obtain ⟨rest, hrest, rfl⟩ := Option.map_eq_some_iff.1 h
      rw [List.mem_append, mem_headGroup, ih hrest]
      constructor
      · rintro (⟨rfl, hin⟩ | ⟨hle, hin⟩)
        · exact ⟨le_rfl, hin⟩
        · exact ⟨by omega, hin⟩
      · rintro ⟨hle, hin⟩
        rcases Nat.eq_or_lt_of_le hle with heq | hgt
        · exact Or.inl ⟨heq.symm, hin⟩
        · exact Or.inr ⟨hgt, hin⟩
    · cases h
      refine iff_of_false (by simp) ?_
      rintro ⟨hle, hin, -⟩
      omega

theorem groupedHead_ends (hlast : nVocab ≤ 2 ^ 32 - 256) {fuel i : Nat}
    (hfuel : nVocab ≤ 256 * i + 256 * fuel) :
    ∃ stores, groupedHead t q D nVocab (fuel + 1) (256 * i) = some stores := by
  induction fuel generalizing i with
  | zero =>
    unfold groupedHead
    rw [if_neg (by omega)]
    exact ⟨[], rfl⟩
  | succ fuel ih =>
    unfold groupedHead
    split_ifs with hlt
    · have hnext : (256 * i + 256) % 2 ^ 32 = 256 * (i + 1) := by omega
      obtain ⟨rest, hrest⟩ := @ih (i + 1) (by omega)
      rw [hnext, hrest]
      exact ⟨_, rfl⟩
    · exact ⟨[], rfl⟩

/-- Past the last multiple of 256 the row number starts again at zero. -/
theorem groupedHead_loops (hlast : 2 ^ 32 - 256 < nVocab) {v : Nat} (hv : v < 2 ^ 32)
    (hgroup : v % 256 = 0) (fuel : Nat) : groupedHead t q D nVocab fuel v = none := by
  induction fuel generalizing v with
  | zero => rfl
  | succ fuel ih =>
    unfold groupedHead
    rw [if_pos (by omega), ih (by omega) (by omega)]
    rfl

/-- The stores of the loop are right when each of its ids is. -/
theorem fills_floatHead {val : Nat → HeadLogit} :
    Fills nVocab val (floatHead t D nVocab) ↔ ∀ v < nVocab, floatLogit t D v = val v := by
  constructor
  · intro h v hv
    exact (h.sound (v, floatLogit t D v) (List.mem_map_of_mem (List.mem_range.2 hv))).2
  · exact fun h => (fills_each (floatLogit t D)).congr h

theorem groupedHead_fills {val : Nat → HeadLogit} :
    (∃ fuel stores, groupedHead t q D nVocab fuel 0 = some stores ∧ Fills nVocab val stores) ↔
      nVocab ≤ 2 ^ 32 - 256 ∧ ∀ v < nVocab, groupLogit t q D nVocab v = val v := by
  constructor
  · rintro ⟨fuel, stores, hrun, hfills⟩
    have hlast : nVocab ≤ 2 ^ 32 - 256 := by
      by_contra hover
      rw [groupedHead_loops (by omega) (by decide) rfl fuel] at hrun
      cases hrun
    refine ⟨hlast, fun v hv => ?_⟩
    have hmem := (mem_groupedHead (i := 0) hlast hrun (s := (v, groupLogit t q D nVocab v))).2
      ⟨Nat.zero_le _, hv, rfl⟩
    exact (hfills.sound _ hmem).2
  · rintro ⟨hlast, hall⟩
    obtain ⟨stores, hrun⟩ := @groupedHead_ends t q D nVocab hlast nVocab 0 (by omega)
    have hmem {s : Nat × HeadLogit} := mem_groupedHead (i := 0) hlast hrun (s := s)
    refine ⟨nVocab + 1, stores, hrun, fun s hs => ?_, fun v hv => ?_⟩
    · obtain ⟨-, hlt, hval⟩ := hmem.1 hs
      exact ⟨hlt, hval.trans (hall _ hlt)⟩
    · exact ⟨(v, groupLogit t q D nVocab v), hmem.2 ⟨Nat.zero_le _, hv, rfl⟩, rfl⟩

end Groups

section Agree

variable (t : GgufTensor) (q : QuantInfo) (D nVocab : Nat)

/-- The size of a row of floats does not wrap, unless not even what it wraps to is there. -/
def FloatRowsFit : Prop := nVocab = 0 ∨ 4 * D < 2 ^ 32 ∨ t.nbytes < wrap32 (4 * D)

/-- The loop over groups ends, the rows that are there can be expanded, no group is cut by the end of
the tensor between two of its rows, and no group is read at an offset that has wrapped. -/
structure GroupsWhole : Prop where
  ends : nVocab ≤ 2 ^ 32 - 256
  expands : dequantizeStatus q D = .ok ∨ nVocab = 0 ∨ t.nbytes < rowSize q D
  whole : nVocab ≤ t.nbytes / rowSize q D ∨ 256 ∣ t.nbytes / rowSize q D
  offsets : ∀ i, i * 256 < nVocab → 2 ^ 64 ≤ i * 256 * rowSize q D →
    readable t (i * 256 * rowSize q D % 2 ^ 64) (min 256 (nVocab - i * 256) * rowSize q D) = false

def HeadFit : Prop :=
  if t.ggmlType = 0 then FloatRowsFit t D nVocab else GroupsWhole t q D nVocab

end Agree

section Agree

variable {t : GgufTensor} {q : QuantInfo} {D nVocab : Nat}

/-- Rows that start in order are read where the last of them ends in the tensor. -/
theorem readable_rows {v cnt rowBytes : Nat} :
    readable t (v * rowBytes) (cnt * rowBytes) = true ↔ (v + cnt) * rowBytes ≤ t.nbytes := by
  rw [readable_iff, Nat.add_mul]
  omega

theorem floatLogits_iff (hvocab : nVocab < 2 ^ 32) :
    (∀ v < nVocab, floatLogit t D v = rowLogit t ⟨0, 1, 4⟩ D v) ↔ FloatRowsFit t D nVocab := by
  have hsize : rowSize ⟨0, 1, 4⟩ D = 4 * D := by
    rw [rowSize, Nat.div_one, Nat.mul_comm]
  unfold floatLogit rowLogit
  rw [hsize]
  constructor
  · intro h
    by_contra hnot
    unfold FloatRowsFit at hnot
    rw [not_or, not_or, not_lt, not_lt] at hnot
    obtain ⟨hvocab0, hwide, hin⟩ := hnot
    have hwrap : wrap32 (4 * D) ≠ 4 * D := by
      unfold wrap32
      omega
    have hread : readable t (0 * wrap32 (4 * D) % 2 ^ 64) (wrap32 (4 * D)) = true := by
      rw [readable_iff]
      omega
    have hzero := h 0 (by omega)
    simp only [hread, hwrap, if_true, if_false] at hzero
    split_ifs at hzero
  · rintro (rfl | hfit | hout) v hv
    · cases hv
    · have hwrap : wrap32 (4 * D) = 4 * D := wrap32_eq hfit
      have hoffset : v * (4 * D) < 2 ^ 64 :=
        (Nat.mul_lt_mul'' (hv.trans hvocab) hfit).trans_eq (by decide)
      have hread := @readable_rows t v 1 (4 * D)
      rw [Nat.one_mul] at hread
      simp only [hwrap, if_true, Nat.mod_eq_of_lt hoffset, hread]
    · have hleast : ¬readable t (v * wrap32 (4 * D) % 2 ^ 64) (wrap32 (4 * D)) = true := by
        rw [readable_iff]
        omega
      have hpast : ¬(v + 1) * (4 * D) ≤ t.nbytes := by
        have hle : wrap32 (4 * D) ≤ 4 * D := Nat.mod_le _ _
        rw [Nat.add_mul]
        omega
      rw [if_neg hpast]
      exact if_neg hleast

/-- Rows that can be expanded are not empty. -/
theorem rowSize_pos (hq : 0 < q.blockSize ∧ 0 < q.bytesPerBlock)
    (h : dequantizeStatus q D = .ok) : 0 < rowSize q D := by
  unfold dequantizeStatus at h
  split_ifs at h with hzero hmod
  have hle : q.blockSize ≤ D :=
    Nat.le_of_dvd (Nat.pos_of_ne_zero hzero) (Nat.dvd_of_mod_eq_zero (not_not.1 hmod))
  exact Nat.mul_pos (Nat.div_pos hle hq.1) hq.2

/-- A group whose offset does not wrap is read when its last row is in the tensor. -/
theorem groupLogit_eq {v : Nat} (hoffset : v / 256 * 256 * rowSize q D < 2 ^ 64) :
    groupLogit t q D nVocab v =
      if (v / 256 * 256 + min 256 (nVocab - v / 256 * 256)) * rowSize q D ≤ t.nbytes then
        if dequantizeStatus q D = .ok then .product (v * rowSize q D) else .stale
      else .least := by
  have hrow : v / 256 * 256 * rowSize q D + v % 256 * rowSize q D = v * rowSize q D := by
    rw [← Nat.add_mul, Nat.div_add_mod']
  simp only [groupLogit, Nat.mod_eq_of_lt hoffset, readable_rows, hrow]

theorem rowLogit_eq_least {v : Nat} (h : t.nbytes < (v + 1) * rowSize q D) :
    rowLogit t q D v = .least := if_neg (Nat.not_le.2 h)

/-- The group at which the tensor ends in the middle loses the rows it still has. -/
theorem whole_of_groupLogits (hbytes : t.nbytes < 2 ^ 64)
    (h : ∀ v < nVocab, groupLogit t q D nVocab v = rowLogit t q D v) :
    nVocab ≤ t.nbytes / rowSize q D ∨ 256 ∣ t.nbytes / rowSize q D := by
  by_contra hnot
  rw [not_or, not_le] at hnot
  obtain ⟨hshort, hcut⟩ := hnot
  have hpos : 0 < rowSize q D := by
    by_contra hzero
    rw [Nat.eq_zero_of_not_pos hzero, Nat.div_zero] at hcut
    exact hcut (Nat.dvd_zero 256)
  obtain ⟨rows, hrows⟩ : ∃ rows, t.nbytes / rowSize q D = rows := ⟨_, rfl⟩
  rw [hrows] at hshort hcut
  have hin (k : Nat) : k * rowSize q D ≤ t.nbytes ↔ k ≤ rows := by
    rw [← Nat.le_div_iff_mul_le hpos, hrows]
  -- the first row of the group that is cut
  have hstart : rows / 256 * 256 / 256 * 256 = rows / 256 * 256 := by omega
  have hoffset : rows / 256 * 256 / 256 * 256 * rowSize q D < 2 ^ 64 :=
    ((hin _).2 (by omega)).trans_lt hbytes
  have hfirst := h (rows / 256 * 256) (by omega)
  rw [groupLogit_eq hoffset, hstart, if_neg (by rw [hin]; omega), rowLogit,
    if_pos ((hin _).2 (by omega))] at hfirst
  cases hfirst

theorem groupsWhole_of_logits (hbytes : t.nbytes < 2 ^ 64) (hlast : nVocab ≤ 2 ^ 32 - 256)
    (h : ∀ v < nVocab, groupLogit t q D nVocab v = rowLogit t q D v) :
    GroupsWhole t q D nVocab := by
  constructor
  case ends => exact hlast
  case whole => exact whole_of_groupLogits hbytes h
  case expands =>
    by_contra hnot
    rw [not_or, not_or, not_lt] at hnot
    obtain ⟨hexpand, hvocab, hin⟩ := hnot
    have hzero := h 0 (by omega)
    rw [rowLogit, if_pos (by omega), groupLogit] at hzero
    simp only [if_neg hexpand] at hzero
    split_ifs at hzero
  case offsets =>
    intro i hi hwrap
    have hfirst := h (i * 256) hi
    have hdiv : i * 256 / 256 * 256 = i * 256 := by omega
    rw [rowLogit_eq_least (by rw [Nat.add_mul]; omega), groupLogit, hdiv] at hfirst
    by_contra hread
    rw [Bool.not_eq_false] at hread
    rw [if_pos hread] at hfirst
    split_ifs at hfirst

theorem logits_of_groupsWhole (hq : 0 < q.blockSize ∧ 0 < q.bytesPerBlock)
    (hbytes : t.nbytes < 2 ^ 64) (h : GroupsWhole t q D nVocab) {v : Nat} (hv : v < nVocab) :
    groupLogit t q D nVocab v = rowLogit t q D v := by
  have hle : v / 256 * 256 * rowSize q D ≤ v * rowSize q D :=
    Nat.mul_le_mul_right _ (Nat.div_mul_le_self v 256)
  by_cases hwrap : 2 ^ 64 ≤ v / 256 * 256 * rowSize q D
  · have hclosed := h.offsets (v / 256) (by omega) hwrap
    rw [rowLogit_eq_least (by rw [Nat.add_mul]; omega), groupLogit, hclosed]
    rfl
  · have hpos : 0 < rowSize q D := by
      rcases h.expands with hexpand | hzero | hshort
      · exact rowSize_pos hq hexpand
      · omega
      · exact Nat.zero_lt_of_lt hshort
    have hwhole := h.whole
    obtain ⟨rows, hrows⟩ : ∃ rows, t.nbytes / rowSize q D = rows := ⟨_, rfl⟩
    have hin (k : Nat) : k * rowSize q D ≤ t.nbytes ↔ k ≤ rows := by
      rw [← Nat.le_div_iff_mul_le hpos, hrows]
    rw [hrows] at hwhole
    rw [groupLogit_eq (Nat.not_le.1 hwrap), rowLogit]
    simp only [hin]
    -- the whole group is in the tensor, or none of it
    have hgroup : v / 256 * 256 + min 256 (nVocab - v / 256 * 256) ≤ rows ↔ v + 1 ≤ rows := by
      omega
    simp only [hgroup]
    split_ifs with hrow hexpand
    · rfl
    · rcases h.expands with hexpand' | hzero | hshort
      · exact absurd hexpand' hexpand
      · omega
      · rw [Nat.div_eq_of_lt hshort] at hrows
        omega
    · rfl

/-- The output head stores for each vocabulary id what its row calls for, whatever the type of the
weight, exactly when the rows of floats are counted without wrapping or, for the other types, no group
of 256 rows is cut by the end of the tensor and the rows can be expanded. -/
theorem headByRows_iff (hq : quantInfo t.ggmlType = some q) (hbytes : t.nbytes < 2 ^ 64)
    (hvocab : nVocab < 2 ^ 32) : HeadByRows t q D nVocab ↔ HeadFit t q D nVocab := by
  unfold HeadByRows headStores HeadFit
  split_ifs with htype
  · rw [htype] at hq
    obtain rfl : q = ⟨0, 1, 4⟩ := (Option.some.inj hq).symm
    rw [← floatLogits_iff hvocab, ← fills_floatHead]
    constructor
    · rintro ⟨fuel, stores, hrun, hfills⟩
      exact Option.some.inj hrun ▸ hfills
    · exact fun h => ⟨0, _, rfl, h⟩
  · rw [groupedHead_fills]
    constructor
    · exact fun h => groupsWhole_of_logits hbytes h.1 h.2
    · exact fun h => ⟨h.ends, fun v hv =>
        logits_of_groupsWhole (quantInfo_positive hq) hbytes h hv⟩

/-- The rows that a decode without failing calls counts as computed are those with a product. -/
theorem reads_iff_product {K : Type*} {g : VgGguf} {cfg : ModelConfig K} (hkind : q.kind ≠ 0)
    {v : Nat} :
    ((headRowsOf (cpuGraph g cfg) q).reads (cpuGraph g cfg) allOk t (v / 256 * 256) = true ∧
        (headRowsOf (cpuGraph g cfg) q).expanded = .ok) ↔
      ∃ offset, groupLogit t q cfg.nEmbd cfg.nVocab v = .product offset := by
  have hsize : rowBytes q cfg.nEmbd = rowSize q cfg.nEmbd := if_neg hkind
  have hrows : headRowsOf (cpuGraph g cfg) q =
      ⟨rowSize q cfg.nEmbd, 256, dequantizeStatus q cfg.nEmbd⟩ := by
    rw [← hsize]
    unfold headRowsOf
    rw [if_neg hkind, if_neg hkind]
    rfl
  rw [hrows, reads_iff, ← readable_iff]
  unfold groupLogit HeadRows.count
  dsimp only
  split_ifs with hread hexpand
  · exact iff_of_true ⟨hread, hexpand⟩ ⟨_, rfl⟩
  · exact iff_of_false (fun h => hexpand h.2) (by simp)
  · exact iff_of_false (fun h => hread h.1) (by simp)

end Agree

section Example

/-- A Q8_0 head of one row of 32 elements. -/
def oneRowHead : GgufTensor := ⟨some [97], 2, [32, 1], 8, 0, 34⟩

theorem headByRows_oneRow :
    HeadByRows oneRowHead ⟨8, 32, 34⟩ 32 1 ↔ HeadFit oneRowHead ⟨8, 32, 34⟩ 32 1 :=
  headByRows_iff rfl (by decide) (by decide)

/-- With two vocabulary ids, the row of the first is there and is not used. -/
theorem oneRow_twoIds : ¬ ∀ (t : GgufTensor) (q : QuantInfo) (D nVocab : Nat),
    quantInfo t.ggmlType = some q → t.nbytes < 2 ^ 64 → nVocab < 2 ^ 32 →
      HeadByRows t q D nVocab := by
  intro hclaim
  have hrun := hclaim oneRowHead ⟨8, 32, 34⟩ 32 2 rfl (by decide) (by decide)
  obtain ⟨-, hall⟩ := groupedHead_fills.1 hrun
  exact absurd (hall 0 (by decide)) (by decide)

end Example

end VgEngine.Decode
