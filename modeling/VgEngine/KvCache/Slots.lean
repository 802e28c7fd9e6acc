import VgEngine.KvCache.Evict
import Mathlib.Tactic.Ring

/-! The operations on sequences: how each of them passes page slots between the live
sequences and the call under way. -/
namespace VgEngine.KvCache

variable {w w' : World} {extra : List Slot} {h : Nat} {q : KvSequence}

/-- The slots of all sequences but the one behind a handle. -/
def World.others (w : World) (h : Nat) : List Slot := (w.seqs.eraseIdx h).flatMap seqSlots

theorem flatMap_set_perm {α β : Type*} (f : α → List β) {l : List α} {i : Nat} (hi : i < l.length)
    (a : α) : ((l.set i a).flatMap f).Perm (f a ++ (l.eraseIdx i).flatMap f) := by
  induction l generalizing i with
  | nil => exact absurd hi (Nat.not_lt_zero i)
  | cons b l ih =>
    cases i with
    | zero => exact List.Perm.refl _
    | succ i =>
      rw [List.set_cons_succ, List.eraseIdx_cons_succ, List.flatMap_cons, List.flatMap_cons]
      have htail := (ih (Nat.lt_of_succ_lt_succ hi)).append_left (f b)
      exact htail.trans (List.perm_append_comm_assoc _ _ _)

theorem seq_eq_some : w.seq h = some q ↔ w.seqs[h]? = some (some q) := by
  unfold World.seq
  rw [Option.join_eq_some_iff]

theorem seq_lt (hq : w.seq h = some q) : h < w.seqs.length := by
  obtain ⟨hlt, -⟩ := List.getElem?_eq_some_iff.1 (seq_eq_some.1 hq)
  exact hlt

theorem slots_setSeq (hlt : h < w.seqs.length) (o : Option KvSequence) :
    (w.setSeq h o).slots.Perm (seqSlots o ++ w.others h) := by
  unfold World.slots World.setSeq World.others
  exact flatMap_set_perm seqSlots hlt o

theorem slots_perm (hq : w.seq h = some q) : w.slots.Perm (q.pages ++ w.others h) := by
  have hset := slots_setSeq (seq_lt hq) (some q)
  have hsame : w.setSeq h (some q) = w := by
    obtain ⟨hlt, hget⟩ := List.getElem?_eq_some_iff.1 (seq_eq_some.1 hq)
    unfold World.setSeq
    rw [← hget, List.set_getElem_self]
  rwa [hsame] at hset

theorem mem_slots (hq : w.seq h = some q) {x : Slot} (hx : x ∈ q.pages) : x ∈ w.slots :=
  (slots_perm hq).mem_iff.2 (List.mem_append_left _ hx)

theorem seq_setSeq (hlt : h < w.seqs.length) (o : Option KvSequence) (k : Nat) :
    (w.setSeq h o).seq k = if k = h then o else w.seq k := by
  unfold World.setSeq World.seq
  dsimp only
  rw [List.getElem?_set]
  by_cases heq : h = k
  · rw [if_pos heq, if_pos hlt, if_pos heq.symm]
    rfl
  · rw [if_neg heq, if_neg (Ne.symm heq)]

theorem seq_append (o : Option KvSequence) (k : Nat) :
    World.seq { w with seqs := w.seqs ++ [o] } k = if k = w.seqs.length then o else w.seq k := by
  unfold World.seq
  dsimp only
  by_cases heq : k = w.seqs.length
  · rw [if_pos heq, heq, List.getElem?_concat_length]
    rfl
  · rw [if_neg heq]
    by_cases hlt : k < w.seqs.length
    · rw [List.getElem?_append_left hlt]
    · rw [List.getElem?_eq_none (by simp; omega), List.getElem?_eq_none (by omega)]

theorem SeqSound.perm {extra' : List Slot} (hw : SeqSound w extra) (hperm : extra'.Perm extra) :
    SeqSound w extra' :=
  ⟨hw.tokens, hw.pages.perm (hperm.append_left _), hw.lengths, hw.room⟩

/-- A sequence and the call under way may exchange slots. -/
theorem SeqSound.setSeq (hw : SeqSound w extra) (hq : w.seq h = some q) {o : Option KvSequence}
    {extra' : List Slot} (hslots : (seqSlots o ++ extra').Perm (q.pages ++ extra))
    (hlength : ∀ p, o = some p → p.pages.length = World.pagesFor w.store.cfg p.tokens.length) :
    SeqSound (w.setSeq h o) extra' where
  tokens := hw.tokens
  pages := by
    apply hw.pages.perm
    calc ((w.setSeq h o).slots ++ extra').Perm ((seqSlots o ++ w.others h) ++ extra') :=
          (slots_setSeq (seq_lt hq) o).append_right _
      _ |>.Perm ((w.others h ++ seqSlots o) ++ extra') := List.perm_append_comm.append_right _
      _ |>.Perm (w.others h ++ (seqSlots o ++ extra')) := by rw [List.append_assoc]
      _ |>.Perm (w.others h ++ (q.pages ++ extra)) := hslots.append_left _
      _ |>.Perm ((w.others h ++ q.pages) ++ extra) := by rw [List.append_assoc]
      _ |>.Perm ((q.pages ++ w.others h) ++ extra) := List.perm_append_comm.append_right _
      _ |>.Perm (w.slots ++ extra) := (slots_perm hq).symm.append_right _
  lengths := by
    intro k p hp
    rw [seq_setSeq (seq_lt hq)] at hp
    split at hp
    · exact hlength p hp
    · exact hw.lengths k p hp
  room := hw.room

theorem refsTo_middle (a b : List Slot) (x : Slot) (i : Nat) :
    refsTo (a ++ x :: b) i = refsTo (a ++ b) i + if x.ptr.index = i then 1 else 0 := by
  rw [← refsTo_cons]
  exact List.perm_middle.countP_eq _

theorem deref_slot (hw : SeqSound w extra) {x : Slot} (hx : x ∈ w.slots ++ extra) :
    w.deref x.ptr = some (w.store.cells x.ptr.index) := by
  unfold World.deref
  rw [if_pos (hw.pages.denotes x hx).1]

theorem SeqSound.setCell (hw : SeqSound w extra) {extra' : List Slot} {i : Nat} {x : Page}
    (hdata : x.data = (w.store.cells i).data) (hspilled : x.spilled = (w.store.cells i).spilled)
    (hslots : ∀ y ∈ w.slots ++ extra', y ∈ w.slots ++ extra)
    (hrefs : x.refs = refsTo (w.slots ++ extra') i)
    (hother : ∀ j, j ≠ i → refsTo (w.slots ++ extra') j = refsTo (w.slots ++ extra) j) :
    SeqSound (w.setCell i x) extra' :=
  hw.of_frame ⟨rfl, rfl, rfl⟩ (hw.pages.setCell hdata hspilled hslots hrefs hother) hw.room

theorem SeqSound.pageRetain (hw : SeqSound w extra) {x : Slot} (hx : x ∈ w.slots ++ extra)
    (hrefs : refsTo (w.slots ++ extra) x.ptr.index + 1 < 2 ^ 32) :
    ∃ w', w.pageRetain x.ptr = some w' ∧ SeqSound w' (x :: extra) ∧ Frame w w' := by
  unfold World.pageRetain
  rw [deref_slot hw hx, Option.map_some]
  have hcount := hw.pages.refs _ (hw.pages.denotes x hx).2.1
  refine ⟨_, rfl, hw.setCell rfl rfl ?_ ?_ ?_, ⟨rfl, rfl, rfl⟩⟩
  · intro y hy
    rcases List.mem_append.1 hy with hy | hy
    · exact List.mem_append_left _ hy
    · rcases List.mem_cons.1 hy with rfl | hy
      · exact hx
      · exact List.mem_append_right _ hy
  · dsimp only
    rw [refsTo_middle, if_pos rfl, hcount, Nat.mod_eq_of_lt hrefs]
  · intro j hj
    rw [refsTo_middle, if_neg (Ne.symm hj), Nat.add_zero]

theorem SeqSound.pageDrop {x : Slot} (hw : SeqSound w (x :: extra)) :
    ∃ w', w.pageDrop x.ptr = some w' ∧ SeqSound w' extra ∧ Frame w w' := by
  have hx : x ∈ w.slots ++ x :: extra := List.mem_append_right _ List.mem_cons_self
  unfold World.pageDrop
  rw [deref_slot hw hx, Option.map_some]
  have hcount := hw.pages.refs _ (hw.pages.denotes x hx).2.1
  rw [refsTo_middle, if_pos rfl] at hcount
  refine ⟨_, rfl, hw.setCell rfl rfl ?_ ?_ ?_, ⟨rfl, rfl, rfl⟩⟩
  · intro y hy
    rcases List.mem_append.1 hy with hy | hy
    · exact List.mem_append_left _ hy
    · exact List.mem_append_right _ (List.mem_cons_of_mem _ hy)
  · dsimp only
    rw [hcount, Nat.add_sub_cancel]
  · intro j hj
    rw [refsTo_middle, if_neg (Ne.symm hj), Nat.add_zero]

theorem SeqSound.retainAll {xs : List Slot} (hw : SeqSound w extra) (hxs : ∀ x ∈ xs, x ∈ w.slots)
    (hrefs : ∀ x ∈ xs, refsTo (w.slots ++ extra) x.ptr.index + refsTo xs x.ptr.index < 2 ^ 32) :
    ∃ w', World.retainAll xs w = some w' ∧ SeqSound w' (xs ++ extra) ∧ Frame w w' := by
  induction xs generalizing w extra with
  | nil => exact ⟨w, rfl, hw, Frame.refl w⟩
  | cons x xs ih =>
    have hx := hrefs x List.mem_cons_self
    rw [refsTo_cons, if_pos rfl] at hx
    obtain ⟨w1, hretain, h1, hframe1⟩ :=
      hw.pageRetain (List.mem_append_left _ (hxs x List.mem_cons_self)) (by omega)
    obtain ⟨w2, hrest, h2, hframe2⟩ := ih h1
      (by
        intro y hy
        rw [hframe1.slots]
        exact hxs y (List.mem_cons_of_mem x hy))
      (by
        intro y hy
        have hbound := hrefs y (List.mem_cons_of_mem x hy)
        rw [refsTo_cons] at hbound
        rw [hframe1.slots, refsTo_middle]
        omega)
    refine ⟨w2, ?_, h2.perm List.perm_middle.symm, hframe1.trans hframe2⟩
    rw [World.retainAll, hretain]
    exact hrest

theorem SeqSound.dropAll {xs : List Slot} (hw : SeqSound w (xs ++ extra)) :
    ∃ w', World.dropAll xs w = some w' ∧ SeqSound w' extra ∧ Frame w w' := by
  induction xs generalizing w with
  | nil => exact ⟨w, rfl, hw, Frame.refl w⟩
  | cons x xs ih =>
    obtain ⟨w1, hdrop, h1, hframe1⟩ := hw.pageDrop
    obtain ⟨w2, hrest, h2, hframe2⟩ := ih h1
    refine ⟨w2, ?_, h2, hframe1.trans hframe2⟩
    rw [World.dropAll, hdrop]
    exact hrest

theorem SeqSound.sequenceClose (hw : SeqSound w extra) (hq : w.seq h = some q) :
    ∃ w', w.sequenceClose h = some w' ∧ SeqSound w' extra ∧ Frame (w.setSeq h none) w' := by
  have hgone : SeqSound (w.setSeq h none) (q.pages ++ extra) :=
    hw.setSeq hq (List.Perm.refl _) (by simp)
  obtain ⟨w', hdrop, h', hframe⟩ := hgone.dropAll
  refine ⟨w', ?_, h', hframe⟩
  unfold World.sequenceClose
  rw [hq]
  exact hdrop

end VgEngine.KvCache
