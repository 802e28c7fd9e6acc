import VgEngine.Gguf.Range

/-! `vg_gguf_read`: the mapping, the `O_DIRECT` bounce buffer and the buffered path. -/
namespace VgEngine.Gguf

/-- How the system calls of one read turn out; `preadLimit` is the most that one
`pread` transfers. -/
structure ReadIo where
  mmapOk : Bool
  openDirectOk : Bool
  memalignOk : Bool
  preadLimit : Nat

/-- An open file. Path, index handle and mapping all denote the same bytes. -/
structure Handle where
  index : VgGguf
  file : GgufFile
  mapped : Bool
  directIo : Bool

def slice (bytes : List UInt8) (start n : Nat) : List UInt8 := (bytes.drop start).take n

/-- `vg_gguf_map`, given whether its system calls succeed. -/
def ggufMap (ok : Bool) (h : Handle) : Handle := { h with mapped := h.mapped || ok }

/-- The position of a name in the tensor table. -/
def findTensorIndex (g : VgGguf) (name : List UInt8) : Option Nat :=
  match g.tensorHash.bind (HashTable.lookup · name) with
  | some i => some i
  | none => g.tensorList.findIdx? fun t => t.name == some name

/-- `vg_gguf_find_tensor`: the record, with its position in the table. -/
def findTensor (g : VgGguf) (name : List UInt8) : Option (Nat × GgufTensor) :=
  (findTensorIndex g name).bind fun i => g.tensorList[i]?.map fun t => (i, t)

theorem findTensor_getElem {g : VgGguf} {name : List UInt8} {i : Nat} {t : GgufTensor}
    (h : findTensor g name = some (i, t)) : g.tensorList[i]? = some t := by
  obtain ⟨j, -, hj⟩ := Option.bind_eq_some_iff.1 h
  obtain ⟨u, hu, heq⟩ := Option.map_eq_some_iff.1 hj
  obtain ⟨rfl, rfl⟩ := Prod.mk.inj heq
  exact hu

/-- The `O_DIRECT` path, in `size_t` arithmetic. -/
def directRead (io : ReadIo) (bytes : List UInt8) (abs n : Nat) : Except Status (List UInt8) :=
  let alignedOff := abs / 512 * 512
  let skip := abs - alignedOff
  let alignedN := (n + skip + 512 - 1) % 2 ^ 64 / 512 * 512
  let transferred := min io.preadLimit (min alignedN (bytes.length - alignedOff))
  if io.openDirectOk = false then .error .io
  else if io.memalignOk = false then .error .nomem
  else if 2 ^ 63 ≤ alignedOff ∨ transferred < skip + n then .error .io
  else .ok (slice (slice bytes alignedOff transferred) skip n)

/-- `fseeko` and `fread` on the index handle. -/
def bufferedRead (bytes : List UInt8) (abs n : Nat) : Except Status (List UInt8) :=
  if abs < 2 ^ 63 ∧ n ≤ bytes.length - abs then .ok (slice bytes abs n) else .error .io

/-- A read at an absolute offset, once the mapping has been tried. -/
def readAt (io : ReadIo) (h : Handle) (abs n : Nat) : Except Status (List UInt8) :=
  if h.mapped = true ∧ abs ≤ h.index.fileSize ∧ n ≤ h.index.fileSize - abs then
    .ok (slice h.file.bytes abs n)
  else if h.directIo then directRead io h.file.bytes abs n
  else bufferedRead h.file.bytes abs n

def ggufRead (io : ReadIo) (h : Handle) (t : GgufTensor) (off n : Nat) :
    Except Status (List UInt8) × Handle :=
  if t.nbytes < off ∨ t.nbytes - off < n then (.error .range, h)
  else
    let abs := (h.index.dataBase + t.dataOffset + off) % 2 ^ 64
    let h := if h.mapped = false ∧ h.index.fileSize ≠ 0 then ggufMap io.mmapOk h else h
    (readAt io h abs n, h)

/-- The system calls a read of `n` bytes falls back on work. Without direct I/O there
is always the index handle. -/
def ReadIo.Works (io : ReadIo) (h : Handle) (n : Nat) : Prop :=
  h.directIo = true → h.mapped = true ∨ io.mmapOk = true ∨
    (io.openDirectOk = true ∧ io.memalignOk = true ∧ n + 1024 ≤ io.preadLimit)

theorem slice_slice {bytes : List UInt8} {a k skip n : Nat} (h : skip + n ≤ k) :
    slice (slice bytes a k) skip n = slice bytes (a + skip) n := by
  unfold slice
  rw [List.drop_take, List.take_take, List.drop_drop, Nat.min_eq_left (by omega)]

theorem directRead_eq {io : ReadIo} {bytes : List UInt8} {abs n : Nat}
    (hopen : io.openDirectOk = true) (halign : io.memalignOk = true)
    (hlimit : n + 1024 ≤ io.preadLimit) (hsize : bytes.length < 2 ^ 63)
    (hin : abs + n ≤ bytes.length) : directRead io bytes abs n = .ok (slice bytes abs n) := by
  have hquot : abs / 512 * 512 ≤ abs ∧ abs < abs / 512 * 512 + 512 := by omega
  have hwrap : (n + (abs - abs / 512 * 512) + 512 - 1) % 2 ^ 64 =
      n + (abs - abs / 512 * 512) + 512 - 1 := Nat.mod_eq_of_lt (by omega)
  have hcover : abs - abs / 512 * 512 + n ≤ min io.preadLimit
      (min ((n + (abs - abs / 512 * 512) + 512 - 1) / 512 * 512)
        (bytes.length - abs / 512 * 512)) := by
    omega
  unfold directRead
  simp only [hopen, halign, Bool.true_eq_false, if_false, hwrap]
  rw [if_neg (by omega), slice_slice hcover, Nat.add_sub_cancel' hquot.1]

theorem bufferedRead_eq {bytes : List UInt8} {abs n : Nat} (hsize : bytes.length < 2 ^ 63)
    (hin : abs + n ≤ bytes.length) : bufferedRead bytes abs n = .ok (slice bytes abs n) := by
  unfold bufferedRead
  rw [if_pos (by omega)]

theorem readAt_eq {io : ReadIo} {h : Handle} {abs n : Nat} (hsize : h.index.fileSize = h.file.size)
    (hin : abs + n ≤ h.file.size) (hio : h.directIo = true → h.mapped = true ∨
      (io.openDirectOk = true ∧ io.memalignOk = true ∧ n + 1024 ≤ io.preadLimit)) :
    readAt io h abs n = .ok (slice h.file.bytes abs n) := by
  unfold readAt
  by_cases hmapped : h.mapped = true
  · rw [if_pos ⟨hmapped, by omega, by omega⟩]
  · rw [if_neg (by simp [hmapped])]
    by_cases hdirect : h.directIo = true
    · rw [if_pos hdirect]
      rcases hio hdirect with hm | ⟨hopen, halign, hlimit⟩
      · exact absurd hm hmapped
      · exact directRead_eq hopen halign hlimit h.file.size_lt hin
    · rw [if_neg hdirect]
      exact bufferedRead_eq h.file.size_lt hin

/-- Reading part of a tensor that lies in the file yields the bytes that are there. -/
theorem ggufRead_of_inRange {io : ReadIo} {h : Handle} {t : GgufTensor} {off n : Nat}
    (hsize : h.index.fileSize = h.file.size) (hin : InRange h.file h.index t)
    (hn : off + n ≤ t.nbytes) (hio : io.Works h n) :
    (ggufRead io h t off n).1 =
      .ok (slice h.file.bytes (h.index.dataBase + t.dataOffset + off) n) := by
  have hlt : h.file.size < 2 ^ 63 := h.file.size_lt
  have hge : 24 ≤ h.file.size := h.file.size_ge
  unfold InRange at hin
  have habs : (h.index.dataBase + t.dataOffset + off) % 2 ^ 64 =
      h.index.dataBase + t.dataOffset + off := Nat.mod_eq_of_lt (by omega)
  unfold ggufRead
  rw [if_neg (by omega)]
  simp only [habs]
  by_cases hmapped : h.mapped = true
  · rw [if_neg (by simp [hmapped])]
    exact readAt_eq hsize (by omega) fun _ => Or.inl hmapped
  · rw [if_pos ⟨by simpa using hmapped, by omega⟩]
    apply readAt_eq (h := ggufMap io.mmapOk h) hsize (by simp only [ggufMap]; omega)
    intro hdirect
    rcases hio hdirect with hm | hm | hrest
    · exact absurd hm hmapped
    · exact Or.inl (by simp [ggufMap, hm])
    · exact Or.inr hrest

theorem directRead_ok {io : ReadIo} {bytes b : List UInt8} {abs n : Nat}
    (h : directRead io bytes abs n = .ok b) : b = slice bytes abs n := by
  unfold directRead at h
  dsimp only at h
  split at h
  · simp at h
  · split at h
    · simp at h
    · split at h
      · simp at h
      · rename_i hfit
        rw [not_or, not_lt] at hfit
        rw [← Except.ok.inj h, slice_slice (by omega), Nat.add_sub_cancel' (Nat.div_mul_le_self _ _)]

theorem readAt_ok {io : ReadIo} {h : Handle} {b : List UInt8} {abs n : Nat}
    (hok : readAt io h abs n = .ok b) : b = slice h.file.bytes abs n := by
  unfold readAt bufferedRead at hok
  split at hok
  · exact (Except.ok.inj hok).symm
  · split at hok
    · exact directRead_ok hok
    · split at hok
      · exact (Except.ok.inj hok).symm
      · simp at hok

/-- The bytes of a record: the range of the file it points at. -/
def payload (h : Handle) (t : GgufTensor) : List UInt8 :=
  slice h.file.bytes ((h.index.dataBase + t.dataOffset) % 2 ^ 64) t.nbytes

/-- A read that succeeds returns the bytes of the record, whichever path it took. -/
theorem ggufRead_ok {io : ReadIo} {h : Handle} {t : GgufTensor} {b : List UInt8}
    (hok : (ggufRead io h t 0 t.nbytes).1 = .ok b) : b = payload h t := by
  unfold ggufRead at hok
  split at hok
  · simp at hok
  · rw [readAt_ok hok]
    dsimp only [Nat.add_zero]
    split <;> rfl

/-- A read changes nothing but whether the file is mapped. -/
theorem ggufRead_handle (io : ReadIo) (h : Handle) (t : GgufTensor) (off n : Nat) :
    ∃ mapped, (ggufRead io h t off n).2 = { h with mapped := mapped } := by
  unfold ggufRead
  split
  · exact ⟨h.mapped, rfl⟩
  · dsimp only
    split
    · exact ⟨_, rfl⟩
    · exact ⟨h.mapped, rfl⟩

end VgEngine.Gguf
