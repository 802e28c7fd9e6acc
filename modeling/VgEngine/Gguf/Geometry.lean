import VgEngine.Gguf.RoundTrip
import VgEngine.Quant.Elements
import VgEngine.Lib.Tiles

/-! The byte size of a tensor record, as the loader, the validator of `quant.c` and the rows of a
matvec compute it. -/
namespace VgEngine.Gguf
open VgEngine.Lib VgEngine.Quant

variable {env : Libc}

theorem tensorRows_some {rows r : Nat} {ds : List Nat} (h : tensorRows rows ds = some r) :
    r = rows * ds.prod := by
  induction ds generalizing rows with
  | nil =>
    rw [List.prod_nil, Nat.mul_one]
    exact (Option.some.inj h).symm
  | cons d ds ih =>
    unfold tensorRows at h
    split_ifs at h
    rw [ih h, List.prod_cons, Nat.mul_assoc]

/-- What the loader knows of a record when it does not refuse its size. -/
theorem tensorBytes_ok {type n : Nat} {dims : List Nat} (h : tensorBytes type dims = .ok n) :
    ∃ q, quantInfo type = some q ∧ dims.headD 1 % q.blockSize = 0 ∧
      n = dims.tail.prod * (dims.headD 1 / q.blockSize) * q.bytesPerBlock ∧ n < 2 ^ 64 := by
  obtain ⟨rows, hrows, h⟩ := bind_ok.1 h
  obtain ⟨⟨block, ts⟩, hlayout, h⟩ := bind_ok.1 h
  obtain ⟨q, hq, hpair⟩ := Option.map_eq_some_iff.1 (orFail_ok.1 hlayout)
  cases hpair
  have hprod : rows = dims.tail.prod := by
    rw [tensorRows_some (orFail_ok.1 hrows), Nat.one_mul]
  have hts := (quantInfo_positive hq).2
  dsimp only at h
  split_ifs at h with hbad
  · rw [not_or, not_or, not_not, not_lt, not_lt] at hbad
    obtain ⟨hmod, -, hfits⟩ := hbad
    have hn : rows * (dims.headD 1 / q.blockSize) * q.bytesPerBlock = n := Except.ok.inj h
    have hlt : n ≤ sizeMax := by
      rw [← hn]
      exact (Nat.le_div_iff_mul_le hts).1 hfits
    refine ⟨q, hq, hmod, ?_, ?_⟩
    · rw [← hn, hprod]
    · unfold sizeMax at hlt
      omega

/-- The validator accepts the size of whole rows of whole blocks, where it fits in 64 bits. -/
theorem vgQuantValidate_rows {type rows inDim : Nat} {q : QuantInfo} (hq : quantInfo type = some q)
    (hrows : 0 < rows) (hin : 0 < inDim) (hmod : inDim % q.blockSize = 0)
    (hfits : rows * (inDim / q.blockSize) * q.bytesPerBlock < 2 ^ 64) :
    vgQuantValidate type (inDim * rows) (rows * (inDim / q.blockSize) * q.bytesPerBlock) = .ok := by
  obtain ⟨hblock, hts⟩ := quantInfo_positive hq
  have hdvd : q.blockSize ∣ inDim := Nat.dvd_of_mod_eq_zero hmod
  have hblocks : inDim * rows / q.blockSize = rows * (inDim / q.blockSize) := by
    rw [Nat.mul_comm, Nat.mul_div_assoc _ hdvd]
  have hwhole : inDim * rows % q.blockSize = 0 :=
    Nat.mod_eq_zero_of_dvd (Dvd.dvd.mul_right hdvd rows)
  have hpos : 0 < inDim * rows := Nat.mul_pos hin hrows
  have hdiv : rows * (inDim / q.blockSize) ≤ (2 ^ 64 - 1) / q.bytesPerBlock := by
    rw [Nat.le_div_iff_mul_le hts]
    omega
  unfold vgQuantValidate
  rw [hq]
  dsimp only
  rw [hblocks, if_neg (by omega), if_neg (Nat.not_lt.2 hdiv), if_pos rfl]

/-- `row_bytes` of `rows_generic_deq`. The fused kernels step by as many bytes. -/
def rowBytes (q : QuantInfo) (inDim : Nat) : Nat := inDim / q.blockSize * q.bytesPerBlock

/-- The bytes that each row of a matvec starts at and ends before. -/
def rowSlices (q : QuantInfo) (inDim rows : Nat) : List (Nat × Nat) :=
  (List.range rows).map fun r => (r * rowBytes q inDim, r * rowBytes q inDim + rowBytes q inDim)

/-- Ranges of one width, one after the other. -/
theorem tiles_range' (width : Nat) (first n : Nat) :
    Tiles (first * width) ((first + n) * width)
      ((List.range' first n).map fun r => (r * width, r * width + width)) := by
  induction n generalizing first with
  | zero => exact rfl
  | succ n ih =>
    rw [List.range'_succ, List.map_cons]
    refine ⟨rfl, Nat.le_add_right _ _, ?_⟩
    have hrest := ih (first + 1)
    rw [Nat.succ_mul, show first + 1 + n = first + (n + 1) by omega] at hrest
    exact hrest

theorem rowSlices_tiles (q : QuantInfo) (inDim rows : Nat) :
    Tiles 0 (rows * (inDim / q.blockSize) * q.bytesPerBlock) (rowSlices q inDim rows) := by
  have htiles := tiles_range' (rowBytes q inDim) 0 rows
  rw [Nat.zero_mul, Nat.zero_add] at htiles
  rw [rowSlices, List.range_eq_range', Nat.mul_assoc]
  exact htiles

/-- No slice ends inside a block. -/
theorem rowSlices_blocks {q : QuantInfo} {inDim rows : Nat} {s : Nat × Nat}
    (hs : s ∈ rowSlices q inDim rows) : q.bytesPerBlock ∣ s.1 ∧ q.bytesPerBlock ∣ s.2 := by
  obtain ⟨r, -, rfl⟩ := List.mem_map.1 hs
  have hrow : q.bytesPerBlock ∣ rowBytes q inDim := Dvd.intro_left _ rfl
  exact ⟨Dvd.dvd.mul_left hrow r, Dvd.dvd.add (Dvd.dvd.mul_left hrow r) hrow⟩

/-- The record of an accepted file and its declaration. -/
theorem parseIndex_record {file : GgufFile} {g : VgGguf} {t : GgufTensor}
    (h : parseIndex env file = .ok g) (ht : t ∈ g.tensorList) :
    (∀ d ∈ t.dims, 0 < d) ∧ tensorBytes t.ggmlType t.dims = .ok t.nbytes := by
  obtain ⟨L, rest, hvalid, -, hindex, -, -⟩ := parseIndex_accepts h
  have hlist : g.tensorList = L.tensors.map TensorDecl.record := by
    simp [VgGguf.tensorList, hindex.tensors]
  rw [hlist] at ht
  obtain ⟨d, hd, rfl⟩ := List.mem_map.1 ht
  have hdecl := hvalid.tensors d hd
  exact ⟨fun n hn => (hdecl.dims n hn).1, hdecl.bytes⟩

/-- The first dimension, or the one element of a record that has none. -/
def GgufTensor.inDim (t : GgufTensor) : Nat := t.dims.headD 1

/-- The product of the dimensions, in the 64 bits that the validator is given. -/
def GgufTensor.elements (t : GgufTensor) : Nat := t.dims.prod % 2 ^ 64

/-- The loader, the validator and the rows of a matvec agree on every accepted record: its bytes are
those of its elements, and the rows cut them at the ends of blocks, each as long as its own elements
need. -/
theorem parseIndex_geometry {file : GgufFile} {g : VgGguf} {t : GgufTensor}
    (h : parseIndex env file = .ok g) (ht : t ∈ g.tensorList) (hfits : t.dims.prod < 2 ^ 64) :
    vgQuantValidate t.ggmlType t.elements t.nbytes = .ok ∧
      ∃ q, quantInfo t.ggmlType = some q ∧ t.inDim % q.blockSize = 0 ∧
        vgQuantValidate t.ggmlType t.inDim (rowBytes q t.inDim) = .ok ∧
        t.nbytes < 2 ^ 64 ∧ Tiles 0 t.nbytes (rowSlices q t.inDim t.dims.tail.prod) ∧
        ∀ s ∈ rowSlices q t.inDim t.dims.tail.prod,
          q.bytesPerBlock ∣ s.1 ∧ q.bytesPerBlock ∣ s.2 := by
  obtain ⟨hpos, hbytes⟩ := parseIndex_record h ht
  obtain ⟨q, hq, hmod, hn, hlt⟩ := tensorBytes_ok hbytes
  have hin : 0 < t.inDim := headD_pos hpos
  have hrows : 0 < t.dims.tail.prod :=
    List.prod_pos fun d hd => hpos d (List.mem_of_mem_tail hd)
  have hprod : t.dims.prod = t.inDim * t.dims.tail.prod := by
    unfold GgufTensor.inDim
    cases t.dims <;> simp
  have hrow : 1 * (t.inDim / q.blockSize) * q.bytesPerBlock ≤ t.nbytes := by
    rw [hn]
    exact Nat.mul_le_mul_right _ (Nat.mul_le_mul_right _ hrows)
  have hvalid := vgQuantValidate_rows hq hrows hin hmod (hn ▸ hlt)
  have hone := vgQuantValidate_rows hq Nat.one_pos hin hmod (by omega)
  rw [Nat.mul_one, Nat.one_mul] at hone
  refine ⟨?_, q, hq, hmod, hone, hlt, ?_, fun s hs => rowSlices_blocks hs⟩
  · rw [GgufTensor.elements, Nat.mod_eq_of_lt hfits, hprod, hn]
    exact hvalid
  · rw [hn]
    exact rowSlices_tiles q t.inDim t.dims.tail.prod

theorem parseIndex_geometry_complete :
    ∃ (g : VgGguf) (t : GgufTensor), parseIndex plainLibc completeFile = .ok g ∧
      t ∈ g.tensorList ∧ vgQuantValidate t.ggmlType t.elements t.nbytes = .ok := by
  have haccept : (match parseIndex plainLibc completeFile with
    | .ok g => g.tensorList.any fun t => decide (t.dims.prod < 2 ^ 64)
    | .error _ => false) = true := by decide +kernel
  cases h : parseIndex plainLibc completeFile with
  | error e => simp [h] at haccept
  | ok g =>
    rw [h] at haccept
    obtain ⟨t, ht, hfits⟩ := List.any_eq_true.1 haccept
    exact ⟨g, t, rfl, ht, (parseIndex_geometry h ht (of_decide_eq_true hfits)).1⟩

end VgEngine.Gguf
