import VgEngine.Gguf.AcceptIndex
import VgEngine.Gguf.Unique

/-! The range check of `parse_index`. The check subtracts the data base from the
file size in 64 bits, so it bounds the tensors exactly when the padding after the
tensor table still lies inside the file. -/
namespace VgEngine.Gguf
open Bytes

variable {env : Libc}

theorem declaredAlignment_bounds (metas : List (List UInt8 × List UInt8)) :
    1 ≤ declaredAlignment metas ∧ declaredAlignment metas ≤ 4096 := by
  unfold declaredAlignment
  split
  · decide
  · split
    · assumption
    · decide

theorem alignUp64_eq {x a : Nat} (ha : 1 ≤ a) (ha' : a ≤ 4096) (hx : x < 2 ^ 63) :
    alignUp64 x a = (x + a - 1) / a * a := by
  unfold alignUp64 sizeMax
  rw [if_pos (by omega)]

/-- Where the payloads of a laid-out index start: its end, padded to the alignment
the metadata declare. -/
def IndexLayout.dataStart (env : Libc) (L : IndexLayout) : Nat :=
  let a := declaredAlignment (L.metaText env escape)
  (L.encode.length + a - 1) / a * a

theorem Indexes.dataBase_eq {L : IndexLayout} {file : GgufFile} {g : VgGguf} {rest : List UInt8}
    (h : Indexes env escape L file g) (hfile : file.bytes = L.encode ++ rest) :
    g.dataBase = L.dataStart env := by
  have hlen : L.encode.length < 2 ^ 63 := by
    have := file.size_lt
    rw [hfile, List.length_append] at this
    omega
  obtain ⟨hlow, hhigh⟩ := declaredAlignment_bounds g.metas
  rw [h.dataBase, alignUp64_eq hlow hhigh hlen, h.metas]
  rfl

/-- The part of the file that holds the payload of a record. -/
def InRange (file : GgufFile) (g : VgGguf) (t : GgufTensor) : Prop :=
  g.dataBase + t.dataOffset + t.nbytes ≤ file.size

theorem inRange_of_not_refused {file : GgufFile} {g : VgGguf} {t : GgufTensor}
    (hsize : g.fileSize = file.size) (hbase : g.dataBase ≤ file.size)
    (h : rangeRefused g t = false) : InRange file g t := by
  have hlt : file.size < 2 ^ 63 := file.size_lt
  have hsub : sub64 g.fileSize g.dataBase = file.size - g.dataBase := by
    rw [hsize]
    exact sub64_of_le hbase (by omega)
  simp only [rangeRefused, hsub, decide_eq_false_iff_not, not_or, not_lt] at h
  rw [sub64_of_le h.1 (by omega)] at h
  unfold InRange
  omega

/-- Every accepted file is laid out as exactly one index, and all its records lie in
the file exactly when there is no record or the padded end of the tensor table does
not pass the end of the file. -/
theorem parseIndex_inRange_iff {file : GgufFile} {g : VgGguf} (h : parseIndex env file = .ok g) :
    ∃ L : IndexLayout, (L.Valid ∧ L.encode <+: file.bytes) ∧
      (∀ M : IndexLayout, M.Valid → M.encode <+: file.bytes → M = L) ∧
      ((∀ t ∈ g.tensorList, InRange file g t) ↔
        (L.tensors = [] ∨ L.dataStart env ≤ file.size)) := by
  obtain ⟨L, rest, hvalid, hfile, hindex, -, hrange⟩ := parseIndex_accepts h
  have hbase := hindex.dataBase_eq hfile
  have hlist : g.tensorList = L.tensors.map TensorDecl.record := by
    simp [VgGguf.tensorList, hindex.tensors]
  have honly (M : IndexLayout) (hM : M.Valid) (hstart : M.encode <+: file.bytes) : M = L := by
    obtain ⟨rest', hrest'⟩ := hstart
    rw [hfile] at hrest'
    exact (IndexLayout.encode_inj hM hvalid hrest').1
  refine ⟨L, ⟨hvalid, rest, hfile.symm⟩, honly, ?_⟩
  constructor
  · intro hall
    cases htensors : L.tensors with
    | nil => exact Or.inl rfl
    | cons d ds =>
      right
      have hin : InRange file g d.record := hall _ (by simp [hlist, htensors])
      rw [← hbase]
      unfold InRange at hin
      omega
  · rintro (hnil | hend) t ht
    · simp [hlist, hnil] at ht
    · exact inRange_of_not_refused hindex.fileSize (hbase ▸ hend) (hrange t ht)

/-- A C library whose allocations succeed; the float format does not matter here. -/
def plainLibc : Libc := ⟨fun _ => true, fun _ => [48], fun _ => [48]⟩

/-- One F32 tensor `a` with a single element at offset 0, and no metadata. -/
def oneTensor : IndexLayout := ⟨3, [], [⟨[97], [1], 0, 0⟩]⟩

/-- The index alone: 57 bytes, while the payloads start at 64. -/
def truncatedFile : GgufFile := ⟨oneTensor.encode, by decide, by decide⟩

/-- The same index, padded, with its payload. -/
def completeFile : GgufFile :=
  ⟨oneTensor.encode ++ List.replicate 7 0 ++ [0, 0, 128, 63], by decide, by decide⟩

theorem parseIndex_inRange_complete :
    ∃ (g : VgGguf) (L : IndexLayout), parseIndex plainLibc completeFile = .ok g ∧
      (L.Valid ∧ L.encode <+: completeFile.bytes) ∧
      (∀ M : IndexLayout, M.Valid → M.encode <+: completeFile.bytes → M = L) ∧
      ((∀ t ∈ g.tensorList, InRange completeFile g t) ↔
        (L.tensors = [] ∨ L.dataStart plainLibc ≤ completeFile.size)) := by
  have haccept : (parseIndex plainLibc completeFile).isOk = true := by decide +kernel
  cases h : parseIndex plainLibc completeFile with
  | error e => simp [h, Except.isOk, Except.toBool] at haccept
  | ok g =>
    obtain ⟨L, hall⟩ := parseIndex_inRange_iff h
    exact ⟨g, L, rfl, hall⟩

/-- The truncated file is accepted although its tensor ends at byte 68 of 57. -/
theorem parseIndex_accepts_truncated :
    ¬ ∀ (env : Libc) (file : GgufFile) (g : VgGguf), parseIndex env file = .ok g →
      ∀ t ∈ g.tensorList, InRange file g t := by
  intro hclaim
  have haccept : (match parseIndex plainLibc truncatedFile with
    | .ok g => g.tensorList.any fun t =>
        decide (truncatedFile.size < g.dataBase + t.dataOffset + t.nbytes)
    | .error _ => false) = true := by decide +kernel
  cases h : parseIndex plainLibc truncatedFile with
  | error e => simp [h] at haccept
  | ok g =>
    rw [h] at haccept
    obtain ⟨t, ht, hout⟩ := List.any_eq_true.1 haccept
    have hin := hclaim plainLibc truncatedFile g h t ht
    unfold InRange at hin
    simp only [decide_eq_true_eq] at hout
    omega

end VgEngine.Gguf
