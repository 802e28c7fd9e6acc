import VgEngine.Gguf.Read

/-! The three paths of `vg_gguf_read` deliver the same bytes. -/
namespace VgEngine.Gguf

/-- `pread` transfers all that is asked for, up to the end of the file. -/
def ReadIo.Transfers (io : ReadIo) : Prop := 2 ^ 64 ≤ io.preadLimit

/-- With a transfer that stops at the end of the file only, the bounce buffer holds the range. -/
theorem directRead_paths {io : ReadIo} {bytes : List UInt8} {abs n : Nat} (hpread : io.Transfers)
    (hsize : bytes.length < 2 ^ 63) (hin : abs + n ≤ bytes.length) :
    directRead io bytes abs n =
      if io.openDirectOk = false then .error .io
      else if io.memalignOk = false then .error .nomem
      else .ok (slice bytes abs n) := by
  unfold ReadIo.Transfers at hpread
  split_ifs with hopen halign
  · rw [directRead, if_pos hopen]
  · rw [directRead, if_neg hopen, if_pos halign]
  · rw [Bool.not_eq_false] at hopen halign
    exact directRead_eq hopen halign (by omega) hsize hin

/-- Whatever the phase of the range in its sectors and however close to the end of the file it comes,
the mapping, the bounce buffer and the index handle deliver the bytes of the file; the bounce buffer
only fails with the calls that set it up. -/
theorem ggufRead_paths {io : ReadIo} {h : Handle} {t : GgufTensor} {off n : Nat}
    (hpread : io.Transfers) (hsize : h.index.fileSize = h.file.size)
    (hin : InRange h.file h.index t) (hn : off + n ≤ t.nbytes) :
    let bytes := slice h.file.bytes (h.index.dataBase + t.dataOffset + off) n
    (h.mapped = true ∨ io.mmapOk = true → (ggufRead io h t off n).1 = .ok bytes) ∧
      (h.mapped = false → io.mmapOk = false → h.directIo = true → (ggufRead io h t off n).1 =
        if io.openDirectOk = false then .error .io
        else if io.memalignOk = false then .error .nomem
        else .ok bytes) ∧
      (h.mapped = false → io.mmapOk = false → h.directIo = false →
        (ggufRead io h t off n).1 = .ok bytes) := by
  refine ⟨fun hmap => ?_, fun hmapped hmmap hdirect => ?_, fun _ _ hdirect => ?_⟩
  · apply ggufRead_of_inRange hsize hin hn
    intro _
    rcases hmap with hmapped | hmmap
    · exact .inl hmapped
    · exact .inr (.inl hmmap)
  · have hlt : h.file.size < 2 ^ 63 := h.file.size_lt
    unfold InRange at hin
    have habs : (h.index.dataBase + t.dataOffset + off) % 2 ^ 64 =
        h.index.dataBase + t.dataOffset + off := Nat.mod_eq_of_lt (by omega)
    have hread := @directRead_paths io h.file.bytes (h.index.dataBase + t.dataOffset + off) n hpread
      hlt (by unfold GgufFile.size at hin; omega)
    have hge : 24 ≤ h.file.size := h.file.size_ge
    unfold ggufRead
    rw [if_neg (by omega), ← hread]
    simp only [habs]
    rw [if_pos ⟨hmapped, by omega⟩]
    simp [ggufMap, hmapped, hmmap, hdirect, readAt]
  · apply ggufRead_of_inRange hsize hin hn
    intro hd
    rw [hdirect] at hd
    cases hd

/-- A file of 600 bytes, all data, and a tensor in its last sector. -/
def shortFile : GgufFile := ⟨(List.range 600).map UInt8.ofNat, by simp, by simp⟩

theorem ggufRead_paths_short : (ggufRead ⟨false, true, true, 2 ^ 64⟩
      ⟨{ VgGguf.blank 600 with dataBase := 500 }, shortFile, false, true⟩
      ⟨none, 1, [99], 0, 1, 99⟩ 1 90).1 = .ok (slice shortFile.bytes 502 90) :=
  ((@ggufRead_paths ⟨false, true, true, 2 ^ 64⟩
    ⟨{ VgGguf.blank 600 with dataBase := 500 }, shortFile, false, true⟩
    ⟨none, 1, [99], 0, 1, 99⟩ 1 90 (Nat.le_refl _) (by simp [VgGguf.blank, shortFile, GgufFile.size])
    (by simp [InRange, shortFile, GgufFile.size]) (by decide)).2.1 rfl rfl rfl)

end VgEngine.Gguf
