import VgEngine.Model.Config
import VgEngine.Gguf.Range
import Mathlib.Algebra.BigOperators.Group.List.Basic

/-! What an accepted file says about the sizes of its tensors, and the sizes that a decode
derives from them. -/
namespace VgEngine.Model
open Bytes Gguf

section Records

variable {env : Libc} {file : GgufFile} {g : VgGguf} {name : List UInt8} {t : GgufTensor}

/-- A tensor that is found is one of the records of the file. -/
theorem record_of_find (hparse : parseIndex env file = .ok g) (hfind : find g name = some t) :
    ∃ d : TensorDecl, d.Valid ∧ t = d.record := by
  obtain ⟨L, rest, hvalid, -, hindexes, -⟩ := parseIndex_accepts hparse
  obtain ⟨⟨i, u⟩, hfound, rfl⟩ := Option.map_eq_some_iff.1 hfind
  have hget := findTensor_getElem hfound
  unfold VgGguf.tensorList at hget
  rw [hindexes.tensors, Option.getD_some] at hget
  obtain ⟨d, hd, heq⟩ := List.mem_map.1 (List.mem_of_getElem? hget)
  exact ⟨d, hvalid.tensors d hd, heq.symm⟩

theorem tensorRows_eq {rows n : Nat} {dims : List Nat} (h : tensorRows rows dims = some n) :
    n = rows * dims.prod := by
  induction dims generalizing rows with
  | nil => simpa [tensorRows] using h.symm
  | cons d dims ih =>
    unfold tensorRows at h
    split at h
    · cases h
    · rw [ih h, List.prod_cons, Nat.mul_assoc]

/-- The bytes of a tensor are those of the blocks of its rows. -/
theorem tensorBytes_eq {type n : Nat} {dims : List Nat} (h : tensorBytes type dims = .ok n) :
    ∃ q, quantInfo type = some q ∧ dims.headD 1 % q.blockSize = 0 ∧
      n = dims.tail.prod * (dims.headD 1 / q.blockSize) * q.bytesPerBlock := by
  obtain ⟨rows, hrows, h⟩ := bind_ok.1 h
  obtain ⟨⟨block, size⟩, hlayout, h⟩ := bind_ok.1 h
  obtain ⟨q, hq, heq⟩ := Option.map_eq_some_iff.1 (orFail_ok.1 hlayout)
  obtain ⟨rfl, rfl⟩ := Prod.mk.inj heq
  have hprod := tensorRows_eq (orFail_ok.1 hrows)
  rw [Nat.one_mul] at hprod
  dsimp only at h
  split at h
  · cases h
  · rename_i hfits
    cases h
    refine ⟨q, hq, ?_, by rw [hprod]⟩
    by_contra hblock
    exact hfits (Or.inl hblock)

theorem headD_mul_tail (dims : List Nat) : dims.tail.prod * dims.headD 1 = dims.prod := by
  cases dims with
  | nil => rfl
  | cons d dims => rw [List.tail_cons, List.headD_cons, List.prod_cons, Nat.mul_comm]

/-- An F32 tensor has four bytes for each of its elements. -/
theorem nbytes_of_f32 (hparse : parseIndex env file = .ok g) (hfind : find g name = some t)
    (htype : t.ggmlType = 0) : t.nbytes = 4 * t.dims.prod := by
  obtain ⟨d, hd, rfl⟩ := record_of_find hparse hfind
  obtain ⟨q, hq, -, hbytes⟩ := tensorBytes_eq hd.bytes
  dsimp only [TensorDecl.record] at htype ⊢
  rw [htype] at hq
  obtain rfl : q = ⟨0, 1, 4⟩ := by
    have hf32 : quantInfo 0 = some ⟨0, 1, 4⟩ := rfl
    rw [hf32] at hq
    exact (Option.some.inj hq).symm
  rw [hbytes, Nat.div_one, headD_mul_tail, Nat.mul_comm]

end Records

section Layer

variable {K : Type*} (g : VgGguf) (cfg : ModelConfig K) (layer : Nat)

/-- The outputs of a matrix: its second dimension where it has one, else `other`. -/
def outDim (name : List UInt8) (other : Nat) : Nat :=
  match find g name with
  | none => other
  | some t => if 2 ≤ t.nDims ∧ 1 ≤ dim t 1 then wrap32 (dim t 1) else other

/-- `Q_dim`. -/
def qDim : Nat := outDim g (blk layer "attn_q.weight") (wrap32 (cfg.nHead * cfg.headDim))

/-- `HD`, the elements of a query head. -/
def headWidth : Nat := if cfg.nHead = 0 then cfg.headDim else qDim g cfg layer / cfg.nHead

/-- `KV_dim` once the key projection is read. -/
def keyDim : Nat := outDim g (blk layer "attn_k.weight") (wrap32 (cfg.kvHeads * cfg.headDim))

/-- `KV_dim` once the value projection is read: the length of a row of a page. -/
def kvDim : Nat := outDim g (blk layer "attn_v.weight") (keyDim g cfg layer)

/-- `k_hdim`, the elements of a key head when it is normalised. -/
def keyWidth : Nat := keyDim g cfg layer / cfg.kvHeads

/-- `kv_hdim`, the elements of a cached head. -/
def kvWidth : Nat := kvDim g cfg layer / cfg.kvHeads

end Layer

end VgEngine.Model
