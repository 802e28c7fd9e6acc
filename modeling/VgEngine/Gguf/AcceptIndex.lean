import VgEngine.Gguf.Accept

/-! An accepted file starts with the encoding of a valid index, and the object the
parser returns holds exactly what that index declares. -/
namespace VgEngine.Gguf
open Bytes

theorem bind_ok {ε α β : Type} {x : Except ε α} {f : α → Except ε β} {b : β} :
    (x >>= f) = .ok b ↔ ∃ a, x = .ok a ∧ f a = .ok b := by
  cases x with
  | error e => simp [bind, Except.bind]
  | ok a => simp [bind, Except.bind]

theorem orFail_ok {ε α : Type} {e : ε} {o : Option α} {a : α} :
    orFail e o = .ok a ↔ o = some a := by
  cases o <;> simp [orFail]

theorem throw_ne_ok {ε α : Type} {e : ε} {a : α} : (throw e : Except ε α) ≠ .ok a := by
  intro h
  cases h

variable {env : Libc}

theorem readDims_reads {n : Nat} {t t' : GgufTensor} {c c' : Cursor}
    (h : readDims n t c = .ok (t', c')) :
    ∃ ds : List Nat, ds.length = n ∧ (∀ d ∈ ds, 0 < d ∧ d < 2 ^ 64) ∧
      Reads c (ds.flatMap (leBytes 8)) c' ∧ t' = { t with dims := t.dims ++ ds } := by
  induction n generalizing t c with
  | zero =>
    simp only [readDims, Except.ok.injEq, Prod.mk.injEq] at h
    obtain ⟨rfl, rfl⟩ := h
    exact ⟨[], rfl, by simp, ⟨rfl, rfl⟩, by simp⟩
  | succ n ih =>
    obtain ⟨⟨d, c1⟩, hd, h⟩ := bind_ok.1 h
    dsimp only at h
    split at h
    · exact absurd h throw_ne_ok
    · rename_i hzero
      obtain ⟨hreads, hlt⟩ := u64_reads (orFail_ok.1 hd)
      obtain ⟨ds, rfl, hds, hrest, rfl⟩ := ih h
      refine ⟨d :: ds, rfl, ?_, ?_, by simp⟩
      · intro e he
        rcases List.mem_cons.1 he with rfl | he
        · exact ⟨Nat.pos_of_ne_zero hzero, hlt⟩
        · exact hds e he
      · rw [List.flatMap_cons]
        exact hreads.trans hrest

theorem readTensor_reads {t : GgufTensor} {c c' : Cursor}
    (h : readTensor env c = .ok (t, c')) :
    ∃ d : TensorDecl, d.Valid ∧ Reads c d.encode c' ∧ t = d.record := by
  obtain ⟨⟨name, c1⟩, hname, h⟩ := bind_ok.1 h
  obtain ⟨⟨nd, c2⟩, hnd, h⟩ := bind_ok.1 h
  dsimp only at h
  split at h
  · exact absurd h throw_ne_ok
  · rename_i hrank
    obtain ⟨⟨t1, c3⟩, hdims, h⟩ := bind_ok.1 h
    obtain ⟨⟨type, c4⟩, htype, h⟩ := bind_ok.1 h
    obtain ⟨⟨offset, c5⟩, hoffset, h⟩ := bind_ok.1 h
    obtain ⟨raw, hraw, rfl, hlen⟩ := readString_reads (orFail_ok.1 hname)
    obtain ⟨ds, rfl, hds, hdreads, rfl⟩ := readDims_reads hdims
    obtain ⟨htreads, htlt⟩ := u32_reads (orFail_ok.1 htype)
    obtain ⟨horeads, holt⟩ := u64_reads (orFail_ok.1 hoffset)
    dsimp only [GgufTensor.zero] at h
    rw [List.nil_append] at h
    cases hbytes : tensorBytes type ds with
    | error status =>
      rw [hbytes] at h
      exact absurd h throw_ne_ok
    | ok nbytes =>
      rw [hbytes] at h
      obtain ⟨rfl, rfl⟩ := Prod.mk.injEq .. ▸ Except.ok.inj h
      have hnbytes : (TensorDecl.mk raw ds type offset).nbytes = nbytes := by
        simp [TensorDecl.nbytes, hbytes]
      refine ⟨⟨raw, ds, type, offset⟩, ?_, ?_, ?_⟩
      · exact ⟨hlen, by simpa using hrank, hds, htlt, holt, by rw [hnbytes]; exact hbytes⟩
      · exact hraw.trans ((u32_reads (orFail_ok.1 hnd)).1.trans
          (hdreads.trans (htreads.trans horeads)))
      · simp only [TensorDecl.record, hnbytes]

theorem readTensors_reads {g : VgGguf} {n : Nat} {done ts : List GgufTensor} {c c' : Cursor}
    (h : readTensors env g n done c = .ok (ts, c')) :
    ∃ ds : List TensorDecl, ds.length = n ∧ (∀ d ∈ ds, d.Valid) ∧
      Reads c (ds.flatMap TensorDecl.encode) c' ∧ ts = done ++ ds.map TensorDecl.record := by
  induction n generalizing done c with
  | zero =>
    simp only [readTensors, Except.ok.injEq, Prod.mk.injEq] at h
    obtain ⟨rfl, rfl⟩ := h
    exact ⟨[], rfl, by simp, ⟨rfl, rfl⟩, by simp⟩
  | succ n ih =>
    unfold readTensors at h
    split at h
    · simp at h
    · rename_i t c1 ht
      obtain ⟨d, hvalid, hreads, rfl⟩ := readTensor_reads ht
      obtain ⟨ds, rfl, hds, hrest, rfl⟩ := ih h
      refine ⟨d :: ds, rfl, ?_, ?_, by simp⟩
      · intro e he
        rcases List.mem_cons.1 he with rfl | he
        · exact hvalid
        · exact hds e he
      · rw [List.flatMap_cons]
        exact hreads.trans hrest

theorem readMetas_reads {n : Nat} {g g' : VgGguf} {c c' : Cursor}
    (h : readMetas env n g c = .ok (g', c')) :
    ∃ ms : List (List UInt8 × MetaValue), ms.length = n ∧
      (∀ m ∈ ms, m.1.length ≤ 2 ^ 20 ∧ m.2.Valid) ∧ Reads c (ms.flatMap encodeMeta) c' ∧
      g' = { g with metas := g.metas ++ ms.map fun m => (cstr m.1, m.2.text env escape) } := by
  induction n generalizing g c with
  | zero =>
    simp only [readMetas, Except.ok.injEq, Prod.mk.injEq] at h
    obtain ⟨rfl, rfl⟩ := h
    exact ⟨[], rfl, by simp, ⟨rfl, rfl⟩, by simp⟩
  | succ n ih =>
    obtain ⟨⟨key, c1⟩, hkey, h⟩ := bind_ok.1 h
    obtain ⟨⟨type, c2⟩, htype, h⟩ := bind_ok.1 h
    obtain ⟨⟨value, c3⟩, hvalue, h⟩ := bind_ok.1 h
    obtain ⟨c4, hmalloc, h⟩ := bind_ok.1 h
    obtain ⟨raw, hraw, rfl, hlen⟩ := readString_reads (orFail_ok.1 hkey)
    obtain ⟨v, rfl, hvalid, hreads, rfl⟩ := readScalarValue_sound _ _ _ _ _ (orFail_ok.1 hvalue)
    obtain ⟨ms, rfl, hms, hrest, rfl⟩ := ih h
    refine ⟨(raw, v) :: ms, rfl, ?_, ?_, by simp⟩
    · intro e he
      rcases List.mem_cons.1 he with rfl | he
      · exact ⟨hlen, hvalid⟩
      · exact hms e he
    · rw [List.flatMap_cons]
      have hpair := hraw.trans ((u32_reads (orFail_ok.1 htype)).1.trans hreads)
      exact hpair.trans ((malloc_reads (orFail_ok.1 hmalloc)).nil_trans hrest)

theorem readHeader_reads {g g' : VgGguf} {kvCount : Nat} {c c' : Cursor}
    (h : readHeader g c = .ok (g', kvCount, c')) :
    ∃ version, (version = 2 ∨ version = 3) ∧ g'.tensorCount ≤ 2 ^ 24 ∧ kvCount ≤ 2 ^ 24 ∧
      Reads c (leBytes 4 0x46554747 ++ (leBytes 4 version ++
        (leBytes 8 g'.tensorCount ++ leBytes 8 kvCount))) c' ∧
      g' = { g with tensorCount := g'.tensorCount } := by
  obtain ⟨⟨magic, c1⟩, hmagic, h⟩ := bind_ok.1 h
  dsimp only at h
  split at h
  · exact absurd h throw_ne_ok
  rename_i hmagicEq
  obtain ⟨⟨version, c2⟩, hversion, h⟩ := bind_ok.1 h
  dsimp only at h
  split at h
  · exact absurd h throw_ne_ok
  rename_i hversionRange
  obtain ⟨⟨tensorCount, c3⟩, htensors, h⟩ := bind_ok.1 h
  obtain ⟨⟨kv, c4⟩, hkv, h⟩ := bind_ok.1 h
  dsimp only at h
  split at h
  · exact absurd h throw_ne_ok
  rename_i hcounts
  simp only [pure, Except.pure, Except.ok.injEq, Prod.mk.injEq] at h
  obtain ⟨rfl, rfl, rfl⟩ := h
  obtain rfl : magic = 0x46554747 := by simpa using hmagicEq
  refine ⟨version, by omega, by dsimp only; omega, by omega, ?_, rfl⟩
  exact (u32_reads (orFail_ok.1 hmagic)).1.trans ((u32_reads (orFail_ok.1 hversion)).1.trans
    ((u64_reads (orFail_ok.1 htensors)).1.trans (u64_reads (orFail_ok.1 hkv)).1))

theorem callocTable_reads {ε : Type} {entries : Nat} {e : ε} {allocated : Bool} {c c' : Cursor}
    (h : callocTable env entries e c = .ok (allocated, c')) : Reads c [] c' := by
  unfold callocTable at h
  split at h
  · rename_i c0 hmalloc
    cases h
    exact malloc_reads hmalloc
  · split at h
    · cases h
      exact ⟨rfl, rfl⟩
    · cases h

/-- The name tables are the last thing built; the rest of the object is final by then. -/
theorem buildHashes_ok {g g' : VgGguf} {c : Cursor} (h : buildHashes env g c = .ok g') :
    ∃ tensorHash metaHash, g' = { g with tensorHash := tensorHash, metaHash := metaHash } := by
  obtain ⟨⟨allocated, c1⟩, -, h⟩ := bind_ok.1 h
  obtain ⟨⟨allocated', c2⟩, -, h⟩ := bind_ok.1 h
  cases h
  exact ⟨_, _, rfl⟩

theorem parseTable_reads {g g' : VgGguf} {c : Cursor} (h : parseTable env g c = .ok g') :
    ∃ (ds : List TensorDecl) (c' : Cursor), ds.length = g.tensorCount ∧ (∀ d ∈ ds, d.Valid) ∧
      Reads c (ds.flatMap TensorDecl.encode) c' ∧
      g'.tensors = some (ds.map TensorDecl.record) ∧ g'.metas = g.metas ∧
      g'.fileSize = g.fileSize ∧ g'.dataBase = alignUp64 c'.pos (declaredAlignment g.metas) ∧
      g'.dataBase ≠ 0 ∧ ∀ t ∈ g'.tensorList, rangeRefused g' t = false := by
  obtain ⟨⟨allocated, c1⟩, hcalloc, h⟩ := bind_ok.1 h
  obtain ⟨⟨ts, c2⟩, hts, h⟩ := bind_ok.1 h
  dsimp only at h
  split at h
  · exact absurd h throw_ne_ok
  rename_i hbase
  split at h
  · exact absurd h throw_ne_ok
  rename_i hrange
  obtain ⟨ds, hlen, hds, hreads, rfl⟩ := readTensors_reads hts
  obtain ⟨tensorHash, metaHash, rfl⟩ := buildHashes_ok h
  refine ⟨ds, c2, hlen, hds, (callocTable_reads hcalloc).nil_trans hreads, rfl, rfl, rfl, rfl, hbase, ?_⟩
  intro t ht
  have hnone := List.any_eq_false.1 (Bool.not_eq_true _ ▸ hrange) t ht
  simpa only [rangeRefused, Bool.not_eq_true] using hnone

/-- What it means for an object to be the index `L` of a file. -/
structure Indexes (env : Libc) (esc : List UInt8 → List UInt8) (L : IndexLayout)
    (file : GgufFile) (g : VgGguf) : Prop where
  metas : g.metas = L.metaText env esc
  tensors : g.tensors = some (L.tensors.map TensorDecl.record)
  fileSize : g.fileSize = file.size
  dataBase : g.dataBase = alignUp64 L.encode.length (declaredAlignment g.metas)

/-- Every accepted file is laid out as some valid index and a rest. -/
theorem parseIndex_accepts {file : GgufFile} {g : VgGguf} (h : parseIndex env file = .ok g) :
    ∃ (L : IndexLayout) (rest : List UInt8), L.Valid ∧ file.bytes = L.encode ++ rest ∧
      Indexes env escape L file g ∧ g.dataBase ≠ 0 ∧
      ∀ t ∈ g.tensorList, rangeRefused g t = false := by
  obtain ⟨⟨g1, kvCount, c1⟩, hheader, h⟩ := bind_ok.1 h
  obtain ⟨⟨g2, c2⟩, hmetas, h⟩ := bind_ok.1 h
  obtain ⟨version, hversion, htc, hkc, hhead, hg1⟩ := readHeader_reads hheader
  obtain ⟨ms, rfl, hms, hmreads, rfl⟩ := readMetas_reads hmetas
  obtain ⟨ds, c3, hlen, hds, hdreads, htensors, hgm, hsize, hbase, hne, hrange⟩ :=
    parseTable_reads h
  have hall := hhead.trans (hmreads.trans hdreads)
  rw [hg1] at hall hlen htc hsize hgm hbase
  dsimp only [VgGguf.blank, List.nil_append] at hall hlen htc hsize hgm hbase
  have hencode : (IndexLayout.mk version ms ds).encode = leBytes 4 0x46554747 ++
      (leBytes 4 version ++ (leBytes 8 g1.tensorCount ++ leBytes 8 ms.length)) ++
        (ms.flatMap encodeMeta ++ ds.flatMap TensorDecl.encode) := by
    simp only [IndexLayout.encode, hlen, List.append_assoc]
  refine ⟨⟨version, ms, ds⟩, c3.rest, ?_, ?_, ⟨hgm, htensors, hsize, ?_⟩, hne, hrange⟩
  · exact ⟨hversion, hkc, by dsimp only; omega, hms, hds⟩
  · rw [hencode]
    exact hall.rest
  · have hpos := hall.pos
    rw [← hencode, Nat.zero_add] at hpos
    rw [hbase, hpos, hgm]

end VgEngine.Gguf
