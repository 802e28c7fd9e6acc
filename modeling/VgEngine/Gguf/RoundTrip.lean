import VgEngine.Gguf.CompleteIndex
import VgEngine.Gguf.Read
import VgEngine.Gguf.Write
import Mathlib.Algebra.Order.BigOperators.GroupWithZero.List

/-! A written file is parsed back: same metadata, same tensors, same payloads. -/
namespace VgEngine.Gguf
open Bytes

/-- The payload has the size the geometry of the type gives the dimensions. -/
def FixTensor.Geometry (t : FixTensor) : Prop :=
  ∃ block bytes, quantLayout t.type = some (block, bytes) ∧ block ∣ t.dims.headD 1 ∧
    t.payload.length = t.dims.headD 1 / block * t.dims.tail.prod * bytes

structure FixTensor.Valid (t : FixTensor) : Prop where
  name : t.name.length ≤ 2 ^ 20 ∧ NulFree t.name
  rank : t.dims.length ≤ 4
  dims : ∀ n ∈ t.dims, 0 < n ∧ n < 2 ^ 64
  geometry : t.Geometry

/-- What can be written: the parser's limits on counts and lengths, and strings that
need no escapes. -/
structure FixFile.Admissible (env : Libc) (f : FixFile) : Prop where
  metaCount : f.metas.length ≤ 2 ^ 24
  tensorCount : f.tensors.length ≤ 2 ^ 24
  keys : ∀ m ∈ f.metas, m.1.length ≤ 2 ^ 20 ∧ NulFree m.1
  values : ∀ m ∈ f.metas, m.2.Valid ∧ m.2.Plain false
  text : ∀ m ∈ f.metas, (m.2.render env).length < 2 ^ 63
  tensors : ∀ t ∈ f.tensors, t.Valid

/-- The writer aligns to 32, so the metadata must not declare anything else. -/
structure FixFile.Valid (env : Libc) (f : FixFile) : Prop extends f.Admissible env where
  alignment : declaredAlignment (f.metas.map fun m => (m.1, m.2.render env)) = 32

theorem quantLayout_lt {type block bytes : Nat} (h : quantLayout type = some (block, bytes)) :
    type < 2 ^ 32 ∧ 0 < block ∧ 0 < bytes := by
  unfold quantLayout at h
  obtain ⟨q, hq, heq⟩ := Option.map_eq_some_iff.1 h
  have hkind : ∀ q ∈ quantTable, q.kind < 2 ^ 32 := by decide
  have hlt := hkind q (List.mem_of_find?_eq_some hq)
  have hfound := List.find?_some hq
  have hpos := quantInfo_positive hq
  simp only [Prod.mk.injEq] at heq
  rw [beq_iff_eq] at hfound
  omega

theorem tensorRows_eq {ds : List Nat} (hds : ∀ d ∈ ds, 0 < d) {rows : Nat}
    (h : rows * ds.prod ≤ sizeMax) : tensorRows rows ds = some (rows * ds.prod) := by
  induction ds generalizing rows with
  | nil => simp [tensorRows]
  | cons d ds ih =>
    have hd := hds d List.mem_cons_self
    have hrest := fun e he => hds e (List.mem_cons_of_mem _ he)
    have hprod : 0 < ds.prod := List.prod_pos hrest
    rw [List.prod_cons, ← Nat.mul_assoc] at h ⊢
    have hstep : rows * d ≤ sizeMax := le_trans (Nat.le_mul_of_pos_right _ hprod) h
    unfold tensorRows
    rw [if_neg (Nat.not_lt.2 ((Nat.le_div_iff_mul_le hd).2 hstep)), ih hrest h]

theorem headD_pos {ds : List Nat} (hds : ∀ d ∈ ds, 0 < d) : 0 < ds.headD 1 := by
  cases ds with
  | nil => exact Nat.one_pos
  | cons d ds => exact hds d List.mem_cons_self

theorem FixTensor.Valid.tensorBytes {t : FixTensor} (h : t.Valid) (hlt : t.payload.length < 2 ^ 63) :
    tensorBytes t.type t.dims = .ok t.payload.length := by
  obtain ⟨block, bytes, hlayout, hdvd, hlen⟩ := h.geometry
  obtain ⟨-, hblock, hbytes⟩ := quantLayout_lt hlayout
  have hpos : ∀ d ∈ t.dims, 0 < d := fun d hd => (h.dims d hd).1
  have hblocks : 0 < t.dims.headD 1 / block :=
    Nat.div_pos (Nat.le_of_dvd (headD_pos hpos) hdvd) hblock
  have htail : ∀ d ∈ t.dims.tail, 0 < d := fun d hd => hpos d (List.mem_of_mem_tail hd)
  have hcells : t.dims.headD 1 / block * t.dims.tail.prod ≤ t.payload.length := by
    rw [hlen]
    exact Nat.le_mul_of_pos_right _ hbytes
  have hrows : t.dims.tail.prod ≤ t.payload.length :=
    le_trans (Nat.le_mul_of_pos_left _ hblocks) hcells
  have hmax : t.payload.length ≤ sizeMax := by
    unfold sizeMax
    omega
  have hlow : t.dims.tail.prod ≤ sizeMax / (t.dims.headD 1 / block) := by
    rw [Nat.le_div_iff_mul_le hblocks, Nat.mul_comm]
    exact le_trans hcells hmax
  have hhigh : t.dims.tail.prod * (t.dims.headD 1 / block) ≤ sizeMax / bytes := by
    rw [Nat.le_div_iff_mul_le hbytes, Nat.mul_comm t.dims.tail.prod, ← hlen]
    exact hmax
  unfold Gguf.tensorBytes
  rw [tensorRows_eq htail (by omega), orFail_some, ok_bind, hlayout, orFail_some, ok_bind]
  simp only [Nat.one_mul]
  rw [if_neg (by
    rw [not_or, not_or, not_not]
    exact ⟨Nat.mod_eq_zero_of_dvd hdvd, Nat.not_lt.2 hlow, Nat.not_lt.2 hhigh⟩),
    Nat.mul_comm t.dims.tail.prod, ← hlen]
  rfl

theorem length_pad32 (bytes : List UInt8) : (pad32 bytes).length = round32 bytes.length := by
  unfold pad32 round32
  rw [List.length_append, List.length_replicate]
  omega

theorem le_round32 (v : Nat) : v ≤ round32 v := by
  unfold round32
  omega

theorem round32_add {cursor n : Nat} (h : 32 ∣ cursor) : round32 (cursor + n) = cursor + round32 n := by
  unfold round32
  omega

theorem dvd_round32 (v : Nat) : 32 ∣ round32 v := Dvd.intro_left _ rfl

theorem slice_append {before payload after : List UInt8} {start n : Nat}
    (hstart : before.length = start) (hn : payload.length = n) :
    slice (before ++ (payload ++ after)) start n = payload := by
  subst hstart hn
  unfold slice
  rw [List.drop_left, List.take_left]

/-- The declaration of a tensor points at its payload. -/
structure Points (bytes : List UInt8) (base : Nat) (t : FixTensor) (d : TensorDecl) : Prop where
  decl : d = ⟨t.name, t.dims, t.type, d.offset⟩
  inside : base + d.offset + t.payload.length ≤ bytes.length
  payload : slice bytes (base + d.offset) t.payload.length = t.payload

/-- Whatever precedes the payloads, each declaration points at its own. -/
theorem layout_points (ts : List FixTensor) {before : List UInt8} {base cursor : Nat}
    (hcursor : 32 ∣ cursor) (hbefore : before.length = base + cursor) :
    List.Forall₂ (Points (before ++ payloads ts) base) ts (layout cursor ts) := by
  induction ts generalizing before cursor with
  | nil => exact List.Forall₂.nil
  | cons t ts ih =>
    have hpad : pad32 t.payload = t.payload ++
      List.replicate (round32 t.payload.length - t.payload.length) 0 := rfl
    have hall : before ++ payloads (t :: ts) = before ++ pad32 t.payload ++ payloads ts := by
      simp [payloads]
    rw [hall]
    apply List.Forall₂.cons
    · refine ⟨rfl, ?_, ?_⟩
      · have := le_round32 t.payload.length
        rw [List.length_append, List.length_append, length_pad32]
        dsimp only
        omega
      · rw [List.append_assoc, hpad, List.append_assoc]
        exact slice_append hbefore rfl
    · apply ih (dvd_round32 _)
      rw [List.length_append, length_pad32, hbefore, round32_add hcursor, Nat.add_assoc]

/-- A declaration whose payload lies in a file is valid, and its size is the payload's. -/
theorem Points.valid {bytes : List UInt8} {base : Nat} {t : FixTensor} {d : TensorDecl}
    (h : Points bytes base t d) (ht : t.Valid) (hlt : bytes.length < 2 ^ 63) :
    d.Valid ∧ d.nbytes = t.payload.length := by
  have hinside := h.inside
  have hbytes := ht.tensorBytes (by omega)
  have htype : t.type < 2 ^ 32 := by
    obtain ⟨block, bytes, hlayout, -, -⟩ := ht.geometry
    exact (quantLayout_lt hlayout).1
  rw [h.decl]
  have hnbytes : TensorDecl.nbytes ⟨t.name, t.dims, t.type, d.offset⟩ = t.payload.length := by
    unfold TensorDecl.nbytes
    rw [hbytes]
  exact ⟨⟨ht.name.1, ht.rank, ht.dims, htype, by dsimp only; omega, by rw [hnbytes]; exact hbytes⟩,
    hnbytes⟩

theorem forall_right {α β : Type} {R : α → β → Prop} {Q : β → Prop} {as : List α} {bs : List β}
    (h : List.Forall₂ R as bs) (hQ : ∀ a b, R a b → Q b) : ∀ b ∈ bs, Q b := by
  induction h with
  | nil => simp
  | cons hab _ ih => exact List.forall_mem_cons.2 ⟨hQ _ _ hab, ih⟩

/-- What parsing must recover of one tensor. -/
def Recovers (file : GgufFile) (g : VgGguf) (t : FixTensor) (r : GgufTensor) : Prop :=
  (r.name = some t.name ∧ r.nDims = t.dims.length ∧ r.dims = t.dims ∧ r.ggmlType = t.type ∧
    r.nbytes = t.payload.length) ∧
  ∀ (io : ReadIo) (h : Handle), h.index = g → h.file = file → io.Works h r.nbytes →
    (ggufRead io h r 0 r.nbytes).1 = .ok t.payload

variable {env : Libc}

theorem FixFile.Valid.metaText {f : FixFile} (h : f.Valid env) :
    f.index.metaText env escape = f.metas.map fun m => (m.1, m.2.render env) := by
  apply List.map_congr_left
  intro m hm
  have hvalue := h.values m hm
  rw [cstr_eq_self (h.keys m hm).2, MetaValue.text_eq_render env m.2 hvalue.2 hvalue.1]

theorem FixFile.Valid.dataStart {f : FixFile} (h : f.Valid env) :
    f.index.dataStart env = (pad32 f.index.encode).length := by
  unfold IndexLayout.dataStart
  rw [h.metaText, h.alignment, length_pad32]
  rfl

/-- Every file of the writer is parsed back into the metadata and tensors written. -/
theorem parseIndex_writeFile (hmem : env.Plenty) {f : FixFile} (hf : f.Valid env) {file : GgufFile}
    (hfile : file.bytes = writeFile f) :
    ∃ g, parseIndex env file = .ok g ∧
      g.metas = (f.metas.map fun m => (m.1, m.2.render env)) ∧
      List.Forall₂ (Recovers file g) f.tensors g.tensorList := by
  have hlt : file.bytes.length < 2 ^ 63 := file.size_lt
  have hall : List.Forall₂ (fun t d => t.Valid ∧ Points file.bytes (f.index.dataStart env) t d)
      f.tensors f.index.tensors := by
    rw [List.forall₂_and_left, hfile]
    exact ⟨hf.tensors, layout_points f.tensors (Nat.dvd_zero 32) hf.dataStart.symm⟩
  have hdecls := forall_right hall fun t d h => (h.2.valid h.1 hlt).1
  have hcount : f.index.tensors.length ≤ 2 ^ 24 := by
    rw [← hall.length_eq]
    exact hf.tensorCount
  have hvalid : f.index.Valid := ⟨Or.inr rfl, hf.metaCount, hcount,
    fun m hm => ⟨(hf.keys m hm).1, (hf.values m hm).1⟩, hdecls⟩
  have htext : ∀ m ∈ f.index.metas, (m.2.text env escape).length < 2 ^ 63 := by
    intro m hm
    rw [MetaValue.text_eq_render env m.2 (hf.values m hm).2 (hf.values m hm).1]
    exact hf.text m hm
  have hrange : ∀ d ∈ f.index.tensors,
      f.index.dataStart env + d.offset + d.nbytes ≤ file.size := by
    refine forall_right hall fun t d h => ?_
    rw [(h.2.valid h.1 hlt).2]
    exact h.2.inside
  have hsplit : file.bytes = f.index.encode ++
      (List.replicate (round32 f.index.encode.length - f.index.encode.length) 0 ++
        payloads f.tensors) := by
    rw [hfile, writeFile, pad32, List.append_assoc]
  obtain ⟨g, hparse, hindex⟩ := parseIndex_of_layout hmem hvalid htext hsplit hrange
  have hbase := hindex.dataBase_eq hsplit
  refine ⟨g, hparse, hindex.metas.trans hf.metaText, ?_⟩
  rw [VgGguf.tensorList, hindex.tensors, Option.getD_some, List.forall₂_map_right_iff]
  refine hall.imp fun t d h => ?_
  have hnbytes := (h.2.valid h.1 hlt).2
  have hrecord : d.record = ⟨some t.name, t.dims.length, t.dims, t.type, d.offset,
      t.payload.length⟩ := by
    unfold TensorDecl.record
    rw [hnbytes, h.2.decl]
    dsimp only
    rw [cstr_eq_self h.1.name.2]
  rw [hrecord]
  refine ⟨⟨rfl, rfl, rfl, rfl, rfl⟩, ?_⟩
  rintro io h' rfl rfl hio
  have hin : InRange h'.file h'.index
      ⟨some t.name, t.dims.length, t.dims, t.type, d.offset, t.payload.length⟩ := by
    unfold InRange
    rw [hbase]
    exact h.2.inside
  rw [ggufRead_of_inRange hindex.fileSize hin (by simp) hio, hbase]
  exact congrArg Except.ok h.2.payload

/-- A row of strings and a Q4_0 tensor of two blocks. -/
def sampleFile : FixFile where
  metas := [([107], .array 8 [.string [97], .string [98]]), ([110], .int .int16 (-7))]
  tensors := [⟨[119], [32, 2], 2, List.replicate 36 5⟩]

def sampleGguf : GgufFile := ⟨writeFile sampleFile, by decide +kernel, by decide +kernel⟩

theorem sampleFile_valid : sampleFile.Valid plainLibc where
  metaCount := by decide
  tensorCount := by decide
  keys := by simp [sampleFile, NulFree]
  values := by
    simp [sampleFile, MetaValue.Valid, ValidItems, MetaValue.Plain, PlainItems, NulFree, NoEscape,
      MetaValue.typeCode, IntType.Fits, IntType.signed, IntType.width]
  text := by decide
  tensors := by
    intro t ht
    obtain rfl : t = ⟨[119], [32, 2], 2, List.replicate 36 5⟩ := by simpa [sampleFile] using ht
    exact ⟨⟨by decide, by simp [NulFree]⟩, by decide, by decide, 32, 18, by decide, by decide, by decide⟩
  alignment := by decide

theorem parseIndex_sampleFile :
    ∃ g, parseIndex plainLibc sampleGguf = .ok g ∧
      g.metas = (sampleFile.metas.map fun m => (m.1, m.2.render plainLibc)) ∧
      List.Forall₂ (Recovers sampleGguf g)
        sampleFile.tensors g.tensorList :=
  parseIndex_writeFile (fun _ => rfl) sampleFile_valid rfl

/-- One tensor, with `general.alignment` set to 64 in a file aligned to 32. -/
def realignedFile : FixFile where
  metas := [(alignmentKey, .int .uint32 64)]
  tensors := [⟨[97], [1], 0, [0, 0, 128, 63]⟩]

def realignedGguf : GgufFile := ⟨writeFile realignedFile, by decide +kernel, by decide +kernel⟩

/-- The parser follows the declared alignment, so it looks for the payload at 128
where the writer has put it at 96. -/
theorem parseIndex_realigned :
    ¬ ∀ (env : Libc) (f : FixFile) (file : GgufFile), env.Plenty → f.Admissible env →
      (f.tensors.map FixTensor.name).Nodup → file.bytes = writeFile f →
      ∃ g, parseIndex env file = .ok g ∧
        g.metas = (f.metas.map fun m => (m.1, m.2.render env)) ∧
        List.Forall₂ (Recovers file g) f.tensors g.tensorList := by
  intro hclaim
  have hadmissible : realignedFile.Admissible plainLibc :=
    { metaCount := by decide
      tensorCount := by decide
      keys := by simp [realignedFile, NulFree, alignmentKey]
      values := by
        simp [realignedFile, MetaValue.Valid, MetaValue.Plain, IntType.Fits, IntType.signed,
          IntType.width]
      text := by decide
      tensors := by
        intro t ht
        obtain rfl : t = ⟨[97], [1], 0, [0, 0, 128, 63]⟩ := by simpa [realignedFile] using ht
        exact ⟨⟨by decide, by simp [NulFree]⟩, by decide, by decide, 1, 4, by decide, by decide,
          by decide⟩ }
  obtain ⟨g, hparse, -⟩ := hclaim plainLibc realignedFile
    realignedGguf (fun _ => rfl) hadmissible (by decide) rfl
  have hrefused : (parseIndex plainLibc realignedGguf).isOk =
      false := by decide +kernel
  rw [hparse] at hrefused
  exact Bool.noConfusion hrefused

end VgEngine.Gguf
