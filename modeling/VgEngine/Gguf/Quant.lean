import Mathlib.Data.List.Basic

/-! The block geometry table of `quant.c`. The loader reads only the block size
and the bytes per block of a type. -/
namespace VgEngine.Gguf

structure QuantInfo where
  kind : Nat
  blockSize : Nat
  bytesPerBlock : Nat
deriving DecidableEq, Repr

def quantTable : List QuantInfo :=
  [⟨0, 1, 4⟩, ⟨1, 1, 2⟩, ⟨30, 1, 2⟩, ⟨4, 1, 8⟩, ⟨2, 32, 18⟩, ⟨3, 32, 20⟩, ⟨6, 32, 22⟩,
   ⟨7, 32, 24⟩, ⟨8, 32, 34⟩, ⟨20, 32, 18⟩, ⟨10, 256, 84⟩, ⟨11, 256, 110⟩, ⟨12, 256, 144⟩,
   ⟨13, 256, 176⟩, ⟨14, 256, 210⟩, ⟨15, 256, 292⟩, ⟨24, 1, 1⟩, ⟨25, 1, 2⟩, ⟨26, 1, 4⟩,
   ⟨27, 1, 8⟩, ⟨9, 32, 36⟩, ⟨16, 256, 66⟩, ⟨17, 256, 74⟩, ⟨18, 256, 98⟩, ⟨19, 256, 50⟩,
   ⟨21, 256, 110⟩, ⟨22, 256, 82⟩, ⟨23, 256, 136⟩, ⟨29, 256, 56⟩, ⟨39, 32, 17⟩,
   ⟨40, 64, 36⟩, ⟨34, 256, 54⟩, ⟨35, 256, 66⟩, ⟨41, 128, 18⟩, ⟨42, 64, 18⟩]

def quantInfo (type : Nat) : Option QuantInfo := quantTable.find? fun q => q.kind == type

theorem quantTable_positive : ∀ q ∈ quantTable, 0 < q.blockSize ∧ 0 < q.bytesPerBlock := by
  decide

theorem quantInfo_positive {type : Nat} {q : QuantInfo} (h : quantInfo type = some q) :
    0 < q.blockSize ∧ 0 < q.bytesPerBlock :=
  quantTable_positive q (List.mem_of_find?_eq_some h)

end VgEngine.Gguf
