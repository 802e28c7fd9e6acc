import VgEngine.Quant.Dequantize

/-! What a decoder leaves in the cell of each element: every cell of the row is stored to, and
with the value that the bytes of its own block give. -/
namespace VgEngine.Quant
open VgEngine.Lib VgEngine.Gguf

section Elements

variable {F : Type*} [Add F] [Sub F] [Neg F] [Mul F] [IntCast F] (fl : Floats F)

/-- The element `l` of the half `h` of the pair `j` of runs of sixteen, in the half block `n`. -/
def elemQ2_K (q : BlockQ2_K) (n j h l : Nat) : F :=
  let sc := (q.scales (n * 8 + 2 * j + h)).toNat
  vgHalfToFloat fl q.d * ofUnsigned (sc &&& 0x0F) *
      ofUnsigned (((q.qs.plus (n * 32) (l + 16 * h)).toNat >>> (2 * j)) &&& 3) -
    vgHalfToFloat fl q.dmin * ofUnsigned (sc >>> 4)

def elemQ3_K (q : BlockQ3_K) (n j h l : Nat) : F :=
  let v : Int := (((q.qs.plus (n * 32) (l + 16 * h)).toNat >>> (2 * j)) &&& 3 : Nat) -
    (if (q.hmask (l + 16 * h)).toNat &&& 1 <<< (n * 4 + j) ≠ 0 then 0 else 4)
  vgHalfToFloat fl q.d * (scalesQ3_K q.scales (n * 8 + 2 * j + h) : F) * (v : F)

/-- The low nibble for the plane 0, the high nibble for the plane 1. -/
def nibble (h : Nat) (b : UInt8) : Nat :=
  match h with
  | 0 => b.toNat &&& 0x0F
  | _ => b.toNat >>> 4

def elemQ4_K (q : BlockQ4_K) (j h l : Nat) : F :=
  vgHalfToFloat fl q.d * ofUnsigned (getScaleMinK4 (2 * j + h) q.scales).1 *
      ofUnsigned (nibble h (q.qs.plus (j * 32) l)) -
    vgHalfToFloat fl q.dmin * ofUnsigned (getScaleMinK4 (2 * j + h) q.scales).2

def elemQ5_K (q : BlockQ5_K) (j h l : Nat) : F :=
  let u := 1 <<< (2 * j + h)
  vgHalfToFloat fl q.d * ofUnsigned (getScaleMinK4 (2 * j + h) q.scales).1 *
      ofUnsigned (nibble h (q.qs.plus (j * 32) l) +
        (if (q.qh l).toNat &&& u ≠ 0 then 16 else 0)) -
    vgHalfToFloat fl q.dmin * ofUnsigned (getScaleMinK4 (2 * j + h) q.scales).2

/-- The element `l` of the plane `p` in the half block `n`. -/
def elemQ6_K (q : BlockQ6_K) (n p l : Nat) : F :=
  let v : Int := ((nibble (p / 2) (q.ql.plus (n * 64) (l + 32 * (p % 2))) |||
    (((q.qh.plus (n * 32) l).toNat >>> (2 * p)) &&& 3) <<< 4 : Nat) : Int) - 32
  vgHalfToFloat fl q.d * (int8 (q.scales.plus (n * 8) (l / 16 + 2 * p)) : F) * (v : F)

def elemQ4_0 (q : BlockQ4_0) (h j : Nat) : F :=
  ((nibble h (q.qs j) : Int) - 8 : Int) * vgHalfToFloat fl q.d

def elemQ4_1 (q : BlockQ4_1) (h j : Nat) : F :=
  ofUnsigned (nibble h (q.qs j)) * vgHalfToFloat fl q.d + vgHalfToFloat fl q.m

/-- The code of an element of Q5_0 or Q5_1: its fifth bit is the bit `j` of `qh` in the lower half
and the bit `j + 12` in the upper. -/
def codeQ5 (qh : Ptr) (qs : Ptr) (h j : Nat) : Nat :=
  nibble h (qs j) ||| (((qh.u32 0).toNat >>> (j + 12 * h)) &&& 1) <<< 4

def elemQ5_0 (q : BlockQ5_0) (h j : Nat) : F :=
  ((codeQ5 q.qh q.qs h j : Int) - 16 : Int) * vgHalfToFloat fl q.d

def elemQ5_1 (q : BlockQ5_1) (h j : Nat) : F :=
  ofUnsigned (codeQ5 q.qh q.qs h j) * vgHalfToFloat fl q.d + vgHalfToFloat fl q.m

def elemIq4Nl (q : BlockIq4Nl) (h j : Nat) : F :=
  vgHalfToFloat fl q.d * (kvaluesIq4nl.getD (nibble h (q.qs j)) 0 : F)

def elemTq1_0 (q : BlockTq1_0) (e : Nat) : F :=
  let digit :=
    if e < 160 then tq1Digit (q.qs (e % 32)) (e / 32)
    else if e - 160 < 80 then tq1Digit (q.qs (32 + (e - 160) % 16)) ((e - 160) / 16)
    else tq1Digit (q.qh ((e - 160 - 80) % 4)) ((e - 160 - 80) / 4)
  ((digit : Int) - 1 : Int) * vgHalfToFloat fl q.d

def elemTq2_0 (q : BlockTq2_0) (j l m : Nat) : F :=
  let v : Nat := ((q.qs (j * 32 + m)).toNat >>> (l * 2)) &&& 3
  ((v : Int) - 1 : Int) * vgHalfToFloat fl q.d

def elemQ1_0 (q : BlockQ1_0) (j : Nat) : F :=
  if ((q.qs (j / 8)).toNat >>> (j % 8)) &&& 1 ≠ 0 then vgHalfToFloat fl q.d
  else -vgHalfToFloat fl q.d

def elemQ2_0 (q : BlockQ2_0) (j : Nat) : F :=
  let v : Nat := ((q.qs (j / 4)).toNat >>> (j % 4 * 2)) &&& 3
  ((v : Int) - 1 : Int) * vgHalfToFloat fl q.d

/-- The element `e` of the block of the type at `p`, for the types that `block_fn` knows. -/
def blockElement (type : Nat) (p : Ptr) (e : Nat) : F :=
  match type with
  | 2 => elemQ4_0 fl (blockQ4_0 p) (e / 16) (e % 16)
  | 3 => elemQ4_1 fl (blockQ4_1 p) (e / 16) (e % 16)
  | 6 => elemQ5_0 fl (blockQ5_0 p) (e / 16) (e % 16)
  | 7 => elemQ5_1 fl (blockQ5_1 p) (e / 16) (e % 16)
  | 8 => (int8 ((blockQ8_0 p).qs e) : F) * vgHalfToFloat fl (blockQ8_0 p).d
  | 20 => elemIq4Nl fl (blockIq4Nl p) (e / 16) (e % 16)
  | 10 => elemQ2_K fl (blockQ2_K p) (e / 128) (e % 128 / 32) (e % 128 % 32 / 16) (e % 128 % 32 % 16)
  | 11 => elemQ3_K fl (blockQ3_K p) (e / 128) (e % 128 / 32) (e % 128 % 32 / 16) (e % 128 % 32 % 16)
  | 12 => elemQ4_K fl (blockQ4_K p) (e / 64) (e % 64 / 32) (e % 64 % 32)
  | 13 => elemQ5_K fl (blockQ5_K p) (e / 64) (e % 64 / 32) (e % 64 % 32)
  | 14 => elemQ6_K fl (blockQ6_K p) (e / 128) (e % 128 / 32) (e % 128 % 32)
  | 15 => fl.single (blockQ8_K p).d * (int8 ((blockQ8_K p).qs e) : F)
  | 34 => elemTq1_0 fl (blockTq1_0 p) e
  | 35 => elemTq2_0 fl (blockTq2_0 p) (e / 128) (e % 128 / 32) (e % 128 % 32)
  | 41 => elemQ1_0 fl (blockQ1_0 p) e
  | _ => elemQ2_0 fl (blockQ2_0 p) e

/-- The element `i` of a row of the type. -/
def element (type : Nat) (packed : Ptr) (i : Nat) : F :=
  match scalarFn fl type, quantInfo type with
  | some f, _ => f packed i
  | none, some qi =>
    blockElement fl type (packed.plus (i / qi.blockSize * qi.bytesPerBlock)) (i % qi.blockSize)
  | none, none => fl.single 0

end Elements

section Fills

variable {F : Type*} [Add F] [Sub F] [Neg F] [Mul F] [IntCast F] {fl : Floats F}

theorem deqQ2_K_fills (src : Ptr) (nb : Nat) :
    Fills (nb * 256) (fun i => blockElement fl 10 (src.plus (i / 256 * 84)) (i % 256))
      (deqQ2_K fl src nb) := by
  refine fills_emitted_blocks (fun b => blockElement fl 10 (src.plus (b * 84))) nb
    fun b => ?_
  have hpair : ∀ n j, _ = (List.range 32).map fun e =>
      elemQ2_K fl (blockQ2_K (src.plus (b * 84))) n j (e / 16) (e % 16) := fun n j =>
    append_range_map (elemQ2_K fl (blockQ2_K (src.plus (b * 84))) n j)
  exact (List.flatMap_congr fun n _ =>
    (List.flatMap_congr fun j _ => hpair n j).trans (flatMap_range_map _)).trans
    (flatMap_range_map _)

theorem deqQ3_K_fills (src : Ptr) (nb : Nat) :
    Fills (nb * 256) (fun i => blockElement fl 11 (src.plus (i / 256 * 110)) (i % 256))
      (deqQ3_K fl src nb) := by
  refine fills_emitted_blocks (fun b => blockElement fl 11 (src.plus (b * 110))) nb
    fun b => ?_
  have hpair : ∀ n j, _ = (List.range 32).map fun e =>
      elemQ3_K fl (blockQ3_K (src.plus (b * 110))) n j (e / 16) (e % 16) := fun n j =>
    append_range_map (elemQ3_K fl (blockQ3_K (src.plus (b * 110))) n j)
  exact (List.flatMap_congr fun n _ =>
    (List.flatMap_congr fun j _ => hpair n j).trans (flatMap_range_map _)).trans
    (flatMap_range_map _)

theorem deqQ4_K_fills (src : Ptr) (nb : Nat) :
    Fills (nb * 256) (fun i => blockElement fl 12 (src.plus (i / 256 * 144)) (i % 256))
      (deqQ4_K fl src nb) := by
  refine fills_emitted_blocks (fun b => blockElement fl 12 (src.plus (b * 144))) nb
    fun b => ?_
  have hpair : ∀ j, _ = (List.range 64).map fun e =>
      elemQ4_K fl (blockQ4_K (src.plus (b * 144))) j (e / 32) (e % 32) := fun j =>
    append_range_map (elemQ4_K fl (blockQ4_K (src.plus (b * 144))) j)
  exact (List.flatMap_congr fun j _ => hpair j).trans (flatMap_range_map _)

theorem deqQ5_K_fills (src : Ptr) (nb : Nat) :
    Fills (nb * 256) (fun i => blockElement fl 13 (src.plus (i / 256 * 176)) (i % 256))
      (deqQ5_K fl src nb) := by
  refine fills_emitted_blocks (fun b => blockElement fl 13 (src.plus (b * 176))) nb
    fun b => ?_
  have hpair : ∀ j, _ = (List.range 64).map fun e =>
      elemQ5_K fl (blockQ5_K (src.plus (b * 176))) j (e / 32) (e % 32) := fun j =>
    append_range_map (elemQ5_K fl (blockQ5_K (src.plus (b * 176))) j)
  exact (List.flatMap_congr fun j _ => hpair j).trans (flatMap_range_map _)

theorem deqQ6_K_fills (src : Ptr) (nb : Nat) :
    Fills (nb * 256) (fun i => blockElement fl 14 (src.plus (i / 256 * 210)) (i % 256))
      (deqQ6_K fl src nb) := by
  refine Fills.blocks (fun b => blockElement fl 14 (src.plus (b * 210))) fun b _ => ?_
  refine Fills.blocks (k := 2) (n := 128) (fun n e =>
    elemQ6_K fl (blockQ6_K (src.plus (b * 210))) n (e / 32) (e % 32)) fun n _ => ?_
  have h := fills_planes (k := 4) (n := 32) (elemQ6_K fl (blockQ6_K (src.plus (b * 210))) n)
  simpa [List.range_succ, elemQ6_K, nibble, Nat.add_comm] using h

theorem deqQ8_K_fills (src : Ptr) (nb : Nat) :
    Fills (nb * 256) (fun i => blockElement fl 15 (src.plus (i / 256 * 292)) (i % 256))
      (deqQ8_K fl src nb) :=
  fills_emitted_blocks (fun b => blockElement fl 15 (src.plus (b * 292))) nb fun _ => rfl

theorem deqQ4_0_fills (src : Ptr) (nb : Nat) :
    Fills (nb * 32) (fun i => blockElement fl 2 (src.plus (i / 32 * 18)) (i % 32))
      (deqQ4_0 fl src nb) :=
  Fills.blocks (fun b => blockElement fl 2 (src.plus (b * 18))) fun b _ =>
    fills_halves (n := 16) (elemQ4_0 fl (blockQ4_0 (src.plus (b * 18))))

theorem deqQ4_1_fills (src : Ptr) (nb : Nat) :
    Fills (nb * 32) (fun i => blockElement fl 3 (src.plus (i / 32 * 20)) (i % 32))
      (deqQ4_1 fl src nb) :=
  Fills.blocks (fun b => blockElement fl 3 (src.plus (b * 20))) fun b _ =>
    fills_halves (n := 16) (elemQ4_1 fl (blockQ4_1 (src.plus (b * 20))))

theorem deqQ5_0_fills (src : Ptr) (nb : Nat) :
    Fills (nb * 32) (fun i => blockElement fl 6 (src.plus (i / 32 * 22)) (i % 32))
      (deqQ5_0 fl src nb) :=
  Fills.blocks (fun b => blockElement fl 6 (src.plus (b * 22))) fun b _ =>
    fills_halves (n := 16) (elemQ5_0 fl (blockQ5_0 (src.plus (b * 22))))

theorem deqQ5_1_fills (src : Ptr) (nb : Nat) :
    Fills (nb * 32) (fun i => blockElement fl 7 (src.plus (i / 32 * 24)) (i % 32))
      (deqQ5_1 fl src nb) :=
  Fills.blocks (fun b => blockElement fl 7 (src.plus (b * 24))) fun b _ =>
    fills_halves (n := 16) (elemQ5_1 fl (blockQ5_1 (src.plus (b * 24))))

theorem deqIq4Nl_fills (src : Ptr) (nb : Nat) :
    Fills (nb * 32) (fun i => blockElement fl 20 (src.plus (i / 32 * 18)) (i % 32))
      (deqIq4Nl fl src nb) :=
  Fills.blocks (fun b => blockElement fl 20 (src.plus (b * 18))) fun b _ =>
    fills_halves (n := 16) (elemIq4Nl fl (blockIq4Nl (src.plus (b * 18))))

theorem deqQ8_0_fills (src : Ptr) (nb : Nat) :
    Fills (nb * 32) (fun i => blockElement fl 8 (src.plus (i / 32 * 34)) (i % 32))
      (deqQ8_0 fl src nb) :=
  Fills.blocks (fun b => blockElement fl 8 (src.plus (b * 34))) fun _ _ => fills_each _

theorem deqTq1_0_fills (src : Ptr) (nb : Nat) :
    Fills (nb * 256) (fun i => blockElement fl 34 (src.plus (i / 256 * 54)) (i % 256))
      (deqTq1_0 fl src nb) := by
  refine fills_emitted_blocks (fun b => blockElement fl 34 (src.plus (b * 54))) nb
    fun b => ?_
  dsimp only
  rw [flatMap_range_map, flatMap_range_map, flatMap_range_map, append_range_map_add,
    append_range_map_add]
  refine List.map_congr_left fun e _ => ?_
  simp only [blockElement, elemTq1_0]
  split_ifs <;> simp

theorem deqTq2_0_fills (src : Ptr) (nb : Nat) :
    Fills (nb * 256) (fun i => blockElement fl 35 (src.plus (i / 256 * 66)) (i % 256))
      (deqTq2_0 fl src nb) := by
  refine fills_emitted_blocks (fun b => blockElement fl 35 (src.plus (b * 66))) nb
    fun b => ?_
  exact (List.flatMap_congr fun j _ => flatMap_range_map
    (elemTq2_0 fl (blockTq2_0 (src.plus (b * 66))) j)).trans (flatMap_range_map _)

theorem deqQ1_0_fills (src : Ptr) (nb : Nat) :
    Fills (nb * 128) (fun i => blockElement fl 41 (src.plus (i / 128 * 18)) (i % 128))
      (deqQ1_0 fl src nb) :=
  Fills.blocks (fun b => blockElement fl 41 (src.plus (b * 18))) fun _ _ => fills_each _

theorem deqQ2_0_fills (src : Ptr) (nb : Nat) :
    Fills (nb * 64) (fun i => blockElement fl 42 (src.plus (i / 64 * 18)) (i % 64))
      (deqQ2_0 fl src nb) :=
  Fills.blocks (fun b => blockElement fl 42 (src.plus (b * 18))) fun _ _ => fills_each _

theorem blockFn_fills {type : Nat} {qi : QuantInfo} {fn : Ptr → Nat → List (Nat × F)}
    (hfn : blockFn fl type = some fn) (hqi : quantInfo type = some qi) (src : Ptr) (nb : Nat) :
    Fills (nb * qi.blockSize)
      (fun i => blockElement fl type (src.plus (i / qi.blockSize * qi.bytesPerBlock))
        (i % qi.blockSize)) (fn src nb) := by
  unfold blockFn at hfn
  split at hfn <;> cases hfn <;> cases hqi
  · exact deqQ4_0_fills src nb
  · exact deqQ4_1_fills src nb
  · exact deqQ5_0_fills src nb
  · exact deqQ5_1_fills src nb
  · exact deqQ8_0_fills src nb
  · exact deqIq4Nl_fills src nb
  · exact deqQ2_K_fills src nb
  · exact deqQ3_K_fills src nb
  · exact deqQ4_K_fills src nb
  · exact deqQ5_K_fills src nb
  · exact deqQ6_K_fills src nb
  · exact deqQ8_K_fills src nb
  · exact deqTq1_0_fills src nb
  · exact deqTq2_0_fills src nb
  · exact deqQ1_0_fills src nb
  · exact deqQ2_0_fills src nb

end Fills

section Row

variable {F : Type*} [Add F] [Sub F] [Neg F] [Mul F] [IntCast F] {fl : Floats F}

/-- The status of `vg_dequantize_row`, which does not depend on the bytes. -/
def rowStatus (type bytes elements : Nat) : Status :=
  if elements = 0 then .invalid
  else if vgQuantValidate type elements bytes ≠ .ok then .format
  else if (quantInfo type).any supportedScalar then .ok
  else .unsupported

theorem vgQuantValidate_ok {type elements bytes : Nat}
    (h : vgQuantValidate type elements bytes = .ok) :
    ∃ qi, quantInfo type = some qi ∧ elements % qi.blockSize = 0 := by
  unfold vgQuantValidate at h
  split at h
  · cases h
  · rename_i qi hqi
    split_ifs at h with hbad
    exact ⟨qi, hqi, by omega⟩

/-- Every type that is reported as supported has its conversion. -/
theorem supported_has_fn {type : Nat} {qi : QuantInfo} (hqi : quantInfo type = some qi)
    (hs : supportedScalar qi = true) :
    (scalarFn fl type).isSome = true ∨ (blockFn fl type).isSome = true := by
  have hkind : qi.kind = type := by simpa using List.find?_some hqi
  have hmem : qi ∈ quantTable.filter supportedScalar :=
    List.mem_filter.mpr ⟨List.mem_of_find?_eq_some hqi, hs⟩
  have hkinds : qi.kind ∈ (quantTable.filter supportedScalar).map QuantInfo.kind :=
    List.mem_map_of_mem hmem
  rw [hkind, show (quantTable.filter supportedScalar).map QuantInfo.kind =
    [0, 1, 30, 4, 2, 3, 6, 7, 8, 20, 10, 11, 12, 13, 14, 15, 24, 25, 26, 27, 34, 35, 41, 42]
    from by decide] at hkinds
  simp only [List.mem_cons, List.not_mem_nil, or_false] at hkinds
  rcases hkinds with h | h | h | h | h | h | h | h | h | h | h | h | h | h | h | h | h | h | h |
    h | h | h | h | h <;> subst h <;> simp [scalarFn, blockFn]

theorem vgDequantizeRow_eq (type : Nat) (packed : Ptr) (bytes : Nat) (out : Nat → F)
    (elements : Nat) :
    vgDequantizeRow fl type packed bytes out elements =
      (rowStatus type bytes elements,
        fun i => if rowStatus type bytes elements = .ok ∧ i < elements then
          element fl type packed i else out i) := by
  unfold vgDequantizeRow rowStatus
  split_ifs with hzero hvalid hsupported
  · simp
  · simp
  · simp only [Decidable.not_not] at hvalid
    obtain ⟨qi, hqi, hmod⟩ := vgQuantValidate_ok hvalid
    simp only [hqi, Option.any_some] at hsupported ⊢
    rw [if_neg (by simp [hsupported])]
    cases hscalar : scalarFn fl type with
    | some f =>
      refine Prod.ext rfl (funext fun i => ?_)
      simp only [(fills_each (n := elements) (f packed)).storeAll, true_and, element, hscalar]
    | none =>
      cases hblock : blockFn fl type with
      | none =>
        have hsome : (scalarFn fl type).isSome = true ∨ (blockFn fl type).isSome = true :=
          supported_has_fn hqi hsupported
        simp [hscalar, hblock] at hsome
      | some fn =>
        refine Prod.ext rfl (funext fun i => ?_)
        have hfills := blockFn_fills hblock hqi packed (elements / qi.blockSize)
        have hall : elements / qi.blockSize * qi.blockSize = elements :=
          Nat.div_mul_cancel (Nat.dvd_of_mod_eq_zero hmod)
        rw [hall] at hfills
        simp only [hfills.storeAll, true_and, element, hscalar, hqi]
  · simp only [Decidable.not_not] at hvalid
    obtain ⟨qi, hqi, -⟩ := vgQuantValidate_ok hvalid
    simp only [hqi, Option.any_some] at hsupported ⊢
    simp [hsupported]

end Row

end VgEngine.Quant
