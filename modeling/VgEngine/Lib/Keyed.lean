import Mathlib.Data.List.Nodup

/-! Lists whose entries have distinct keys. A position of such a list stands for a key. -/
namespace VgEngine.Keyed

variable {α β γ : Type*} {key : α → β} {l : List α} {i : Nat} {x : α}

theorem ne_of_nodup_cons {a : α} (hkeys : (key a :: l.map key).Nodup) : ∀ y ∈ l, key y ≠ key a := by
  intro y hy heq
  exact (List.nodup_cons.1 hkeys).1 (heq ▸ List.mem_map_of_mem hy)

variable [DecidableEq β]

/-- Changing the entry at a position is changing the one entry with its key. -/
theorem modify_eq_map (hkeys : (l.map key).Nodup) (hx : l[i]? = some x) (f : α → α) :
    l.modify i f = l.map fun y => if key y = key x then f y else y := by
  induction l generalizing i with
  | nil => simp at hx
  | cons a l ih =>
    rw [List.map_cons] at hkeys
    have hrest := ne_of_nodup_cons hkeys
    cases i with
    | zero =>
      obtain rfl : a = x := by simpa using hx
      rw [List.modify_zero_cons, List.map_cons, if_pos rfl]
      congr 1
      symm
      exact (List.map_congr_left fun y hy => if_neg (hrest y hy)).trans (List.map_id _)
    | succ i =>
      have hx' : l[i]? = some x := by simpa using hx
      have hne : key a ≠ key x := (hrest x (List.mem_of_getElem? hx')).symm
      rw [List.modify_succ_cons, List.map_cons, if_neg hne, ih (List.nodup_cons.1 hkeys).2 hx']

/-- Erasing the entry at a position is dropping the one entry with its key. -/
theorem eraseIdx_eq_filter (hkeys : (l.map key).Nodup) (hx : l[i]? = some x) :
    l.eraseIdx i = l.filter fun y => key y ≠ key x := by
  induction l generalizing i with
  | nil => simp at hx
  | cons a l ih =>
    rw [List.map_cons] at hkeys
    have hrest := ne_of_nodup_cons hkeys
    cases i with
    | zero =>
      obtain rfl : a = x := by simpa using hx
      rw [List.eraseIdx_cons_zero, List.filter_cons_of_neg (by simp)]
      symm
      rw [List.filter_eq_self]
      simpa using hrest
    | succ i =>
      have hx' : l[i]? = some x := by simpa using hx
      have hne : key a ≠ key x := (hrest x (List.mem_of_getElem? hx')).symm
      rw [List.eraseIdx_cons_succ, List.filter_cons_of_pos (by simpa using hne),
        ih (List.nodup_cons.1 hkeys).2 hx']

/-- An entry may take a key that no entry has. -/
theorem nodup_modify (hkeys : (l.map key).Nodup) (hx : l[i]? = some x) {f : α → α}
    (hfresh : ∀ y ∈ l, key y ≠ key (f x)) : ((l.modify i f).map key).Nodup := by
  have hmem := List.mem_of_getElem? hx
  have hsame : ∀ y ∈ l, key y = key x → y = x := fun y hy heq =>
    List.inj_on_of_nodup_map hkeys hy hmem heq
  rw [modify_eq_map hkeys hx, List.map_map]
  apply List.Nodup.map_on ?_ hkeys.of_map
  intro y hy z hz heq
  rw [Function.comp_apply, Function.comp_apply] at heq
  by_cases hyx : key y = key x
  · by_cases hzx : key z = key x
    · rw [hsame y hy hyx, hsame z hz hzx]
    · rw [if_pos hyx, if_neg hzx, hsame y hy hyx] at heq
      exact absurd heq.symm (hfresh z hz)
  · by_cases hzx : key z = key x
    · rw [if_neg hyx, if_pos hzx, hsame z hz hzx] at heq
      exact absurd heq (hfresh y hy)
    · rw [if_neg hyx, if_neg hzx] at heq
      exact List.inj_on_of_nodup_map hkeys hy hz heq

omit [DecidableEq β] in
theorem mem_modify {f : α → α} (h : x ∈ l.modify i f) : ∃ y ∈ l, x = y ∨ x = f y := by
  obtain ⟨j, hj⟩ := List.mem_iff_getElem?.1 h
  rw [List.getElem?_modify] at hj
  obtain ⟨y, hy, hx⟩ := Option.map_eq_some_iff.1 hj
  refine ⟨y, List.mem_of_getElem? hy, ?_⟩
  split_ifs at hx
  · exact Or.inr hx.symm
  · exact Or.inl hx.symm

omit [DecidableEq β] in
/-- A change that a function does not see. -/
theorem map_modify {f : α → α} {g : α → γ} (hf : ∀ x, g (f x) = g x) (l : List α) (i : Nat) :
    (l.modify i f).map g = l.map g := by
  induction l generalizing i with
  | nil => simp
  | cons a l ih =>
    cases i with
    | zero => rw [List.modify_zero_cons, List.map_cons, List.map_cons, hf]
    | succ i => rw [List.modify_succ_cons, List.map_cons, List.map_cons, ih]

end VgEngine.Keyed
