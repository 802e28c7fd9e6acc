import VgEngine.Gguf.Complete
import VgEngine.Gguf.Range

/-! Completeness of `parse_index`: with memory at hand it accepts every file that
starts with a valid index and holds the payloads the index declares. -/
namespace VgEngine.Gguf
open Bytes

theorem orFail_some {ε α : Type} (e : ε) (a : α) : orFail e (some a) = .ok a := rfl

theorem ok_bind {ε α β : Type} (a : α) (f : α → Except ε β) :
    ((.ok a : Except ε α) >>= f) = f a := rfl

theorem readDims_of_rest {ds : List Nat} (hds : ∀ d ∈ ds, 0 < d ∧ d < 2 ^ 64) {t : GgufTensor}
    {c : Cursor} {r : List UInt8} (h : c.rest = ds.flatMap (leBytes 8) ++ r) :
    ∃ c', readDims ds.length t c = .ok ({ t with dims := t.dims ++ ds }, c') ∧
      Reads c (ds.flatMap (leBytes 8)) c' := by
  induction ds generalizing t c with
  | nil => exact ⟨c, by simp [readDims], ⟨rfl, rfl⟩⟩
  | cons d ds ih =>
    obtain ⟨hpos, hlt⟩ := hds d List.mem_cons_self
    rw [List.flatMap_cons, List.append_assoc] at h
    obtain ⟨c1, hd, hreads1⟩ := u64_of_rest hlt h
    obtain ⟨c2, hrest, hreads2⟩ := ih (fun e he => hds e (List.mem_cons_of_mem _ he))
      (t := { t with dims := t.dims ++ [d] }) (hreads1.rest_eq h)
    refine ⟨c2, ?_, ?_⟩
    · simp only [List.length_cons, readDims, hd, orFail_some, ok_bind, if_neg hpos.ne', hrest,
        List.append_assoc, List.singleton_append]
    · rw [List.flatMap_cons]
      exact hreads1.trans hreads2

section
variable {env : Libc} (hmem : env.Plenty)
include hmem

theorem readTensor_of_rest {d : TensorDecl} (hd : d.Valid) {c : Cursor} {r : List UInt8}
    (h : c.rest = d.encode ++ r) :
    ∃ c', readTensor env c = .ok (d.record, c') ∧ Reads c d.encode c' := by
  rw [TensorDecl.encode, List.append_assoc, List.append_assoc, List.append_assoc,
    List.append_assoc] at h
  obtain ⟨c1, h1, hreads1⟩ := readString_of_rest hmem hd.name h
  obtain ⟨c2, h2, hreads2⟩ := u32_of_rest (by have := hd.rank; omega) (hreads1.rest_eq h)
  have h := hreads2.rest_eq (hreads1.rest_eq h)
  obtain ⟨c3, h3, hreads3⟩ := readDims_of_rest hd.dims
    (t := ⟨some (cstr d.name), d.dims.length, [], 0, 0, 0⟩) h
  obtain ⟨c4, h4, hreads4⟩ := u32_of_rest hd.type (hreads3.rest_eq h)
  obtain ⟨c5, h5, hreads5⟩ := u64_of_rest hd.offset (hreads4.rest_eq (hreads3.rest_eq h))
  refine ⟨c5, ?_, ?_⟩
  · simp only [readTensor, h1, h2, h3, h4, h5, orFail_some, ok_bind,
      if_neg (Nat.not_lt.2 hd.rank), GgufTensor.zero, List.nil_append, hd.bytes]
    rfl
  · rw [TensorDecl.encode]
    exact hreads1.trans (hreads2.trans (hreads3.trans (hreads4.trans hreads5)))

theorem readTensors_of_rest {ds : List TensorDecl} (hds : ∀ d ∈ ds, d.Valid) {g : VgGguf}
    (done : List GgufTensor) {c : Cursor} {r : List UInt8}
    (h : c.rest = ds.flatMap TensorDecl.encode ++ r) :
    ∃ c', readTensors env g ds.length done c = .ok (done ++ ds.map TensorDecl.record, c') ∧
      Reads c (ds.flatMap TensorDecl.encode) c' := by
  induction ds generalizing done c with
  | nil => exact ⟨c, by simp [readTensors], ⟨rfl, rfl⟩⟩
  | cons d ds ih =>
    rw [List.flatMap_cons, List.append_assoc] at h
    obtain ⟨c1, hd, hreads1⟩ := readTensor_of_rest hmem (hds d List.mem_cons_self) h
    obtain ⟨c2, hrest, hreads2⟩ := ih (fun e he => hds e (List.mem_cons_of_mem _ he))
      (done ++ [d.record]) (hreads1.rest_eq h)
    refine ⟨c2, ?_, ?_⟩
    · simp only [List.length_cons, readTensors, hd, hrest, List.map_cons, List.append_assoc,
        List.singleton_append]
    · rw [List.flatMap_cons]
      exact hreads1.trans hreads2

theorem readMetas_of_rest {ms : List (List UInt8 × MetaValue)}
    (hms : ∀ m ∈ ms, m.1.length ≤ 2 ^ 20 ∧ m.2.Valid)
    (htext : ∀ m ∈ ms, (m.2.text env escape).length < 2 ^ 63) {g : VgGguf}
    {c : Cursor} {r : List UInt8} (h : c.rest = ms.flatMap encodeMeta ++ r) :
    ∃ c', readMetas env ms.length g c =
      .ok ({ g with metas := g.metas ++ ms.map fun m => (cstr m.1, m.2.text env escape) }, c') ∧
        Reads c (ms.flatMap encodeMeta) c' := by
  induction ms generalizing g c with
  | nil => exact ⟨c, by simp [readMetas], ⟨rfl, rfl⟩⟩
  | cons m ms ih =>
    obtain ⟨hkey, hvalid⟩ := hms m List.mem_cons_self
    rw [List.flatMap_cons, List.append_assoc] at h
    have h' := h
    rw [encodeMeta, List.append_assoc, List.append_assoc] at h'
    obtain ⟨c1, h1, hreads1⟩ := readString_of_rest hmem hkey h'
    have h' := hreads1.rest_eq h'
    obtain ⟨c2, h2, hreads2⟩ := u32_of_rest
      m.2.typeCode_lt h'
    have h' := hreads2.rest_eq h'
    obtain ⟨c3, h3, hreads3⟩ := readScalarValue_of_rest hmem m.2 (c2.rest.length + 1) c2 _ h' hvalid
      (by rw [h', List.length_append]; omega) (htext m List.mem_cons_self)
    obtain ⟨c4, h4, hreads4⟩ := malloc_of_plenty hmem c3
    have hmeta : Reads c (encodeMeta m) c4 :=
      hreads1.trans (hreads2.trans (hreads3.trans_nil hreads4))
    obtain ⟨c5, hrest, hreads5⟩ := ih (fun e he => hms e (List.mem_cons_of_mem _ he))
      (fun e he => htext e (List.mem_cons_of_mem _ he))
      (g := { g with metas := g.metas ++ [(cstr m.1, m.2.text env escape)] }) (hmeta.rest_eq h)
    refine ⟨c5, ?_, ?_⟩
    · simp only [List.length_cons, readMetas, h1, h2, h3, h4, orFail_some, ok_bind, hrest,
        List.map_cons, List.append_assoc, List.singleton_append]
    · rw [List.flatMap_cons]
      exact hmeta.trans hreads5

theorem callocTable_of_plenty {ε : Type} (entries : Nat) (e : ε) (c : Cursor) :
    ∃ c', callocTable env entries e c = .ok (true, c') ∧ Reads c [] c' := by
  obtain ⟨c', hm, hreads⟩ := malloc_of_plenty hmem c
  exact ⟨c', by simp [callocTable, hm], hreads⟩

theorem buildHashes_of_plenty (g : VgGguf) (c : Cursor) :
    ∃ tensorHash metaHash,
      buildHashes env g c = .ok { g with tensorHash := tensorHash, metaHash := metaHash } := by
  obtain ⟨c1, h1, -⟩ := callocTable_of_plenty hmem g.tensorCount (Status.nomem, g) c
  unfold buildHashes
  rw [h1, ok_bind]
  dsimp only
  obtain ⟨c2, h2, -⟩ := callocTable_of_plenty hmem g.metas.length
    (Status.nomem, { g with tensorHash :=
      (fillHash env true (g.tensorList.map fun t : GgufTensor => t.name.getD []) c1).1 })
    (fillHash env true (g.tensorList.map fun t : GgufTensor => t.name.getD []) c1).2
  rw [h2, ok_bind]
  exact ⟨_, _, rfl⟩

end

theorem readHeader_of_rest {L : IndexLayout} (hL : L.Valid) {g : VgGguf} {c : Cursor}
    {r : List UInt8} (h : c.rest = L.encode ++ r) :
    ∃ c', readHeader g c = .ok ({ g with tensorCount := L.tensors.length }, L.metas.length, c') ∧
      c'.rest = L.metas.flatMap encodeMeta ++ (L.tensors.flatMap TensorDecl.encode ++ r) := by
  have hversion : L.version < 2 ^ 32 ∧ ¬ (L.version < 2 ∨ 3 < L.version) := by
    rcases hL.version with hv | hv <;> omega
  have htc := hL.tensorCount
  have hmc := hL.metaCount
  simp only [IndexLayout.encode, List.append_assoc] at h
  obtain ⟨c1, h1, hreads1⟩ := u32_of_rest (by decide) h
  have h := hreads1.rest_eq h
  obtain ⟨c2, h2, hreads2⟩ := u32_of_rest hversion.1 h
  have h := hreads2.rest_eq h
  obtain ⟨c3, h3, hreads3⟩ := u64_of_rest (by omega) h
  have h := hreads3.rest_eq h
  obtain ⟨c4, h4, hreads4⟩ := u64_of_rest (by omega) h
  refine ⟨c4, ?_, hreads4.rest_eq h⟩
  simp only [readHeader, h1, h2, h3, h4, orFail_some, ok_bind, ne_eq, not_true_eq_false,
    if_false, if_neg hversion.2, if_neg (show ¬ (2 ^ 24 < L.tensors.length ∨
      2 ^ 24 < L.metas.length) by omega)]
  rfl

variable {env : Libc}

theorem not_refused_of_inRange {file : GgufFile} {g : VgGguf} {t : GgufTensor}
    (hsize : g.fileSize = file.size) (h : InRange file g t) : rangeRefused g t = false := by
  have hlt : file.size < 2 ^ 63 := file.size_lt
  unfold InRange at h
  have hsub : sub64 g.fileSize g.dataBase = file.size - g.dataBase := by
    rw [hsize]
    exact sub64_of_le (by omega) (by omega)
  have hsub' := sub64_of_le (show t.dataOffset ≤ file.size - g.dataBase by omega)
    (show file.size - g.dataBase < 2 ^ 64 by omega)
  simp only [rangeRefused, hsub, hsub', decide_eq_false_iff_not]
  omega

theorem parseTable_of_rest (hmem : env.Plenty) (file : GgufFile) {ds : List TensorDecl}
    (hds : ∀ d ∈ ds, d.Valid) {g : VgGguf} (hg : g.fileSize = file.size)
    (hcount : g.tensorCount = ds.length) {c : Cursor} {r : List UInt8}
    (h : c.rest = ds.flatMap TensorDecl.encode ++ r) {base : Nat} (hbase : base ≠ 0)
    (hbaseEq : alignUp64 (c.pos + (ds.flatMap TensorDecl.encode).length)
      (declaredAlignment g.metas) = base)
    (hrange : ∀ d ∈ ds, base + d.offset + d.nbytes ≤ file.size) :
    ∃ tensorHash metaHash, parseTable env g c = .ok { g with
      tensors := some (ds.map TensorDecl.record), dataBase := base,
      tensorHash := tensorHash, metaHash := metaHash } := by
  obtain ⟨c1, h1, hreads1⟩ := callocTable_of_plenty hmem g.tensorCount (Status.nomem, g) c
  obtain ⟨c2, h2, hreads2⟩ := readTensors_of_rest hmem hds (g := g) []
    (hreads1.rest_eq h)
  have hpos : alignUp64 c2.pos (declaredAlignment g.metas) = base := by
    rw [(hreads1.nil_trans hreads2).pos]
    exact hbaseEq
  rw [List.nil_append, ← hcount] at h2
  have hall : ¬ (ds.map TensorDecl.record).any (rangeRefused { g with
      tensors := some (ds.map TensorDecl.record), dataBase := base }) = true := by
    rw [Bool.not_eq_true, List.any_eq_false]
    intro t ht
    obtain ⟨d, hd, rfl⟩ := List.mem_map.1 ht
    rw [Bool.not_eq_true]
    exact not_refused_of_inRange hg (show InRange file _ d.record from hrange d hd)
  obtain ⟨tensorHash, metaHash, h3⟩ := buildHashes_of_plenty hmem { g with
    tensors := some (ds.map TensorDecl.record), dataBase := base } c2
  refine ⟨tensorHash, metaHash, ?_⟩
  simp only [parseTable, h1, h2, ok_bind, hpos, if_neg hbase, if_neg hall]
  exact h3

/-- With no failed allocation, a file that starts with a valid index is accepted as
that index when every declared payload lies in the file. -/
theorem parseIndex_of_layout (hmem : env.Plenty) {L : IndexLayout} (hL : L.Valid)
    (htext : ∀ m ∈ L.metas, (m.2.text env escape).length < 2 ^ 63) {file : GgufFile}
    {rest : List UInt8} (hfile : file.bytes = L.encode ++ rest)
    (hrange : ∀ d ∈ L.tensors, L.dataStart env + d.offset + d.nbytes ≤ file.size) :
    ∃ g, parseIndex env file = .ok g ∧ Indexes env escape L file g := by
  obtain ⟨c1, h1, hrest1⟩ := readHeader_of_rest hL (g := VgGguf.blank file.size)
    (c := ⟨file.bytes, 0, 0⟩) hfile
  obtain ⟨c2, h2, hreads2⟩ := readMetas_of_rest hmem hL.metas htext
    (g := ⟨file.size, 0, L.tensors.length, none, [], none, none⟩) hrest1
  have hrest2 := hreads2.rest_eq hrest1
  have hlen : L.encode.length < 2 ^ 63 := by
    have := file.size_lt
    rw [hfile, List.length_append] at this
    omega
  obtain ⟨hlow, hhigh⟩ := declaredAlignment_bounds (L.metaText env escape)
  have hbaseEq : alignUp64 L.encode.length (declaredAlignment (L.metaText env escape)) =
      L.dataStart env := alignUp64_eq hlow hhigh hlen
  have hpos : c2.pos + (L.tensors.flatMap TensorDecl.encode).length = L.encode.length := by
    obtain ⟨version, -, -, -, hhead, -⟩ := readHeader_reads h1
    rw [hreads2.pos, hhead.pos]
    simp only [IndexLayout.encode, List.length_append, length_leBytes]
    omega
  have hbase : L.dataStart env ≠ 0 := by
    have hencode : 0 < L.encode.length := by
      simp only [IndexLayout.encode, List.length_append, length_leBytes]
      omega
    have hquot : 1 ≤ (L.encode.length + declaredAlignment (L.metaText env escape) - 1) /
        declaredAlignment (L.metaText env escape) :=
      (Nat.one_le_div_iff hlow).2 (by omega)
    exact (Nat.mul_pos hquot hlow).ne'
  obtain ⟨tensorHash, metaHash, h3⟩ := parseTable_of_rest hmem file hL.tensors
    (g := ⟨file.size, 0, L.tensors.length, none, L.metaText env escape, none, none⟩)
    rfl rfl hrest2 hbase (by rw [hpos]; exact hbaseEq) hrange
  refine ⟨⟨file.size, L.dataStart env, L.tensors.length, some (L.tensors.map TensorDecl.record),
    L.metaText env escape, tensorHash, metaHash⟩, ?_, ?_⟩
  · unfold parseIndex
    rw [h1, ok_bind]
    dsimp only
    rw [show (⟨file.size, 0, L.tensors.length, none, [], none, none⟩ : VgGguf) =
      { VgGguf.blank file.size with tensorCount := L.tensors.length } from rfl] at h2
    rw [h2, ok_bind]
    exact h3
  · exact ⟨rfl, rfl, rfl, hbaseEq.symm⟩

end VgEngine.Gguf
