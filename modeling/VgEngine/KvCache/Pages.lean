import VgEngine.KvCache.Radix

/-! The page array against the slots that refer to it, and what the operations on
single pages preserve. -/
namespace VgEngine.KvCache

/-- How many slots refer to the page at a position. -/
def refsTo (slots : List Slot) (i : Nat) : Nat := slots.countP fun x => x.ptr.index == i

/-- Every slot denotes its page, and every page is resident, intact and counted. -/
structure PagesSound (s : KvStore) (heap : Memory (List UInt8)) (slots : List Slot) : Prop where
  denotes : ∀ x ∈ slots, x.ptr.gen = s.gen ∧ x.ptr.index < s.pageCount ∧
    (s.cells x.ptr.index).data = some x.block
  resident : ∀ i < s.pageCount, (s.cells i).spilled = false ∧ ∃ b, (s.cells i).data = some b ∧
    b < heap.next ∧ heap.cells b = some (List.replicate (pageBytes s.cfg) 0)
  distinct : ∀ i j, i < s.pageCount → j < s.pageCount →
    (s.cells i).data = (s.cells j).data → i = j
  refs : ∀ i < s.pageCount, (s.cells i).refs = refsTo slots i

variable {s s' : KvStore} {heap : Memory (List UInt8)} {slots : List Slot}

theorem refsTo_cons (x : Slot) (slots : List Slot) (i : Nat) :
    refsTo (x :: slots) i = refsTo slots i + if x.ptr.index = i then 1 else 0 := by
  simp [refsTo, List.countP_cons]

theorem refsTo_pos {x : Slot} (hx : x ∈ slots) : 0 < refsTo slots x.ptr.index :=
  List.countP_pos_iff.2 ⟨x, hx, by simp⟩

theorem PagesSound.perm {slots' : List Slot} (h : PagesSound s heap slots)
    (hperm : slots'.Perm slots) : PagesSound s heap slots' where
  denotes x hx := h.denotes x (hperm.mem_iff.1 hx)
  resident := h.resident
  distinct := h.distinct
  refs i hi := (h.refs i hi).trans (hperm.countP_eq _).symm

/-- Only the configuration, the generation and the pages of the array matter. -/
theorem PagesSound.of_eq (h : PagesSound s heap slots) (hcfg : s'.cfg = s.cfg)
    (hgen : s'.gen = s.gen) (hcount : s'.pageCount = s.pageCount)
    (hcells : ∀ i < s.pageCount, s'.cells i = s.cells i) : PagesSound s' heap slots where
  denotes := by
    intro x hx
    have hold := h.denotes x hx
    rw [hgen, hcount, hcells _ hold.2.1]
    exact hold
  resident := by
    intro i hi
    rw [hcount] at hi
    rw [hcells i hi, hcfg]
    exact h.resident i hi
  distinct := by
    intro i j hi hj
    rw [hcount] at hi hj
    rw [hcells i hi, hcells j hj]
    exact h.distinct i j hi hj
  refs := by
    intro i hi
    rw [hcount] at hi
    rw [hcells i hi]
    exact h.refs i hi

/-- A cell keeps its data, and its references follow the slots. -/
theorem PagesSound.setCell (h : PagesSound s heap slots) {slots' : List Slot} {i : Nat} {x : Page}
    (hdata : x.data = (s.cells i).data) (hspilled : x.spilled = (s.cells i).spilled)
    (hslots : ∀ y ∈ slots', y ∈ slots) (hrefs : x.refs = refsTo slots' i)
    (hother : ∀ j, j ≠ i → refsTo slots' j = refsTo slots j) :
    PagesSound { s with cells := fun j => if j = i then x else s.cells j } heap slots' where
  denotes := by
    intro y hy
    obtain ⟨hgen, hlt, hblock⟩ := h.denotes y (hslots y hy)
    refine ⟨hgen, hlt, ?_⟩
    dsimp only
    split
    · rename_i heq
      rw [hdata, ← heq]
      exact hblock
    · exact hblock
  resident := by
    intro j hj
    dsimp only
    split
    · rename_i heq
      rw [hdata, hspilled, ← heq]
      exact h.resident j hj
    · exact h.resident j hj
  distinct := by
    have hsame : ∀ j, (if j = i then x else s.cells j).data = (s.cells j).data := by
      intro j
      split
      · rename_i heq
        rw [hdata, heq]
      · rfl
    intro j k hj hk heq
    rw [hsame, hsame] at heq
    exact h.distinct j k hj hk heq
  refs := by
    intro j hj
    dsimp only
    split
    · rename_i heq
      rw [hrefs, heq]
    · rename_i hne
      rw [hother j hne]
      exact h.refs j hj

/-- Taking the page at `v` out of the array, when no page from there on is referenced. -/
theorem PagesSound.closeGap (h : PagesSound s heap slots) {heap' : Memory (List UInt8)} {v : Nat}
    (hv : v < s.pageCount) (hnone : ∀ j, v ≤ j → j < s.pageCount → (s.cells j).refs = 0)
    (hcfg : s'.cfg = s.cfg) (hgen : s'.gen = s.gen) (hcount : s'.pageCount = s.pageCount)
    (hcells : ∀ i, i ≠ v → s'.cells i = s.cells i) (hnext : heap'.next = heap.next)
    (hheap : ∀ b, (s.cells v).data ≠ some b → heap'.cells b = heap.cells b) :
    PagesSound (World.closeGap s' v) heap' slots := by
  -- position `i` of the new array is position `from i` of the old one
  have hfrom : ∀ i < s.pageCount - 1, ∃ j, j < s.pageCount ∧ j ≠ v ∧
      (World.closeGap s' v).cells i = s.cells j ∧ (i < v → j = i) ∧ (v ≤ i → j = i + 1) := by
    intro i hi
    unfold World.closeGap
    dsimp only
    by_cases hvi : v ≤ i
    · refine ⟨i + 1, by omega, by omega, ?_, by omega, by omega⟩
      rw [if_pos ⟨hvi, by omega⟩]
      exact hcells _ (by omega)
    · refine ⟨i, by omega, by omega, ?_, by omega, by omega⟩
      rw [if_neg (by omega)]
      exact hcells _ (by omega)
  have hbelow : ∀ x ∈ slots, x.ptr.index < v := by
    intro x hx
    obtain ⟨-, hlt, -⟩ := h.denotes x hx
    by_contra hle
    have hzero := hnone _ (not_lt.1 hle) hlt
    rw [h.refs _ hlt] at hzero
    exact (refsTo_pos hx).ne' hzero
  have hcount' : (World.closeGap s' v).pageCount = s.pageCount - 1 := by
    unfold World.closeGap
    dsimp only
    rw [hcount]
  refine ⟨?_, ?_, ?_, ?_⟩
  · intro x hx
    have hlow := hbelow x hx
    obtain ⟨hxgen, hlt, hblock⟩ := h.denotes x hx
    obtain ⟨j, -, -, hcell, hlo, -⟩ := hfrom x.ptr.index (by omega)
    rw [hcount', hcell, hlo hlow]
    exact ⟨hxgen.trans hgen.symm, by omega, hblock⟩
  · intro i hi
    rw [hcount'] at hi
    obtain ⟨j, hj, hne, hcell, -, -⟩ := hfrom i hi
    obtain ⟨hspilled, b, hdata, hlt, hcontents⟩ := h.resident j hj
    have hother : (s.cells v).data ≠ some b := by
      intro heq
      exact hne (h.distinct j v hj hv (hdata.trans heq.symm))
    rw [hcell]
    refine ⟨hspilled, b, hdata, by rw [hnext]; exact hlt, ?_⟩
    rw [hheap b hother, hcontents]
    unfold World.closeGap
    rw [hcfg]
  · intro i k hi hk heq
    rw [hcount'] at hi hk
    obtain ⟨j, hj, -, hcell, hlo, hhi⟩ := hfrom i hi
    obtain ⟨l, hl, -, hcell', hlo', hhi'⟩ := hfrom k hk
    rw [hcell, hcell'] at heq
    have hjl := h.distinct j l hj hl heq
    omega
  · intro i hi
    rw [hcount'] at hi
    obtain ⟨j, hj, -, hcell, hlo, hhi⟩ := hfrom i hi
    rw [hcell]
    by_cases hvi : v ≤ i
    · have hzero : refsTo slots i = 0 := by
        apply Nat.eq_zero_of_not_pos
        intro hpos
        obtain ⟨x, hx, hxi⟩ := List.countP_pos_iff.1 hpos
        have := hbelow x hx
        have : x.ptr.index = i := by simpa using hxi
        omega
      rw [hzero]
      exact hnone j (by have := hhi hvi; omega) hj
    · rw [h.refs j hj, hlo (by omega)]

/-- Without slots, the array may move. -/
theorem PagesSound.move (h : PagesSound s heap []) (gen capacity : Nat) :
    PagesSound { s with gen := gen, pageCapacity := capacity } heap [] where
  denotes := by simp
  resident := h.resident
  distinct := h.distinct
  refs := h.refs

/-- A fresh page at the end of the array, and the slot that refers to it. -/
theorem PagesSound.push (h : PagesSound s heap slots) {x : Page} (hdata : x.data = some heap.next)
    (hspilled : x.spilled = false) (hrefs : x.refs = 1) (hcfg : s'.cfg = s.cfg)
    (hgen : s'.gen = s.gen) (hcount : s'.pageCount = s.pageCount + 1)
    (hcells : ∀ i, s'.cells i = if i = s.pageCount then x else s.cells i) :
    PagesSound s' (heap.alloc (List.replicate (pageBytes s.cfg) 0))
      (⟨⟨s.gen, s.pageCount⟩, heap.next⟩ :: slots) := by
  have hold : ∀ i < s.pageCount, s'.cells i = s.cells i := by
    intro i hi
    rw [hcells, if_neg (by omega)]
  have hnew : s'.cells s.pageCount = x := by
    rw [hcells, if_pos rfl]
  have hfresh : ∀ i < s.pageCount, (s.cells i).data ≠ some heap.next := by
    intro i hi heq
    obtain ⟨-, b, hb, hlt, -⟩ := h.resident i hi
    rw [hb] at heq
    exact absurd (Option.some.inj heq) hlt.ne
  refine ⟨?_, ?_, ?_, ?_⟩
  · intro y hy
    rcases List.mem_cons.1 hy with rfl | hy
    · rw [hcount]
      dsimp only
      rw [hnew]
      exact ⟨hgen.symm, by omega, hdata⟩
    · obtain ⟨hygen, hlt, hblock⟩ := h.denotes y hy
      rw [hcount, hold _ hlt]
      exact ⟨hygen.trans hgen.symm, by omega, hblock⟩
  · intro i hi
    rw [hcount] at hi
    by_cases heq : i = s.pageCount
    · subst heq
      rw [hnew, hcfg]
      exact ⟨hspilled, heap.next, hdata, Nat.lt_succ_self _, heap.alloc_cells_self _⟩
    · obtain ⟨hsp, b, hb, hlt, hcontents⟩ := h.resident i (by omega)
      rw [hold i (by omega), hcfg]
      refine ⟨hsp, b, hb, Nat.lt_succ_of_lt hlt, ?_⟩
      rw [Memory.alloc_cells_of_ne hlt.ne]
      exact hcontents
  · intro i j hi hj heq
    rw [hcount] at hi hj
    by_cases hip : i = s.pageCount <;> by_cases hjp : j = s.pageCount
    · exact hip.trans hjp.symm
    · rw [hip, hnew, hold j (by omega), hdata] at heq
      exact absurd heq.symm (hfresh j (by omega))
    · rw [hjp, hnew, hold i (by omega), hdata] at heq
      exact absurd heq (hfresh i (by omega))
    · rw [hold i (by omega), hold j (by omega)] at heq
      exact h.distinct i j (by omega) (by omega) heq
  · intro i hi
    rw [hcount] at hi
    rw [refsTo_cons]
    dsimp only
    by_cases heq : i = s.pageCount
    · subst heq
      have hzero : refsTo slots s.pageCount = 0 := by
        apply Nat.eq_zero_of_not_pos
        intro hpos
        obtain ⟨y, hy, hyi⟩ := List.countP_pos_iff.1 hpos
        have hlt := (h.denotes y hy).2.1
        have : y.ptr.index = s.pageCount := by simpa using hyi
        omega
      rw [hnew, hrefs, hzero, if_pos rfl]
    · rw [hold i (by omega), if_neg (Ne.symm heq), h.refs i (by omega), Nat.add_zero]

end VgEngine.KvCache
