import Mathlib.Data.List.Basic
import Mathlib.Algebra.BigOperators.Intervals
import Mathlib.Algebra.BigOperators.Ring.Finset

/-! Loops that fill a buffer, and loops that add up: the stores of a loop nest as a list, in
order, and what the buffer holds afterwards. -/
namespace VgEngine.Lib

section Ranges

variable {α : Type*}

/-- Two nested loops are one, over the number of the pass. -/
theorem flatMap_range_map {k n : Nat} (f : Nat → Nat → α) :
    ((List.range k).flatMap fun a => (List.range n).map (f a)) =
      (List.range (k * n)).map fun e => f (e / n) (e % n) := by
  induction k with
  | zero => simp
  | succ k ih =>
    rw [List.range_succ, List.flatMap_append, ih, Nat.succ_mul, List.range_add, List.map_append,
      List.map_map]
    simp only [List.flatMap_cons, List.flatMap_nil, List.append_nil, List.append_cancel_left_eq]
    refine List.map_congr_left fun c hc => ?_
    have hlt : c < n := List.mem_range.mp hc
    have hdiv : (k * n + c) / n = k := by
      rw [Nat.mul_comm, Nat.mul_add_div (by omega), Nat.div_eq_of_lt hlt, Nat.add_zero]
    have hmod : (k * n + c) % n = c := by
      rw [Nat.mul_comm, Nat.mul_add_mod, Nat.mod_eq_of_lt hlt]
    simp only [Function.comp_apply, hdiv, hmod]

theorem append_range_map {n : Nat} (f : Nat → Nat → α) :
    (List.range n).map (f 0) ++ (List.range n).map (f 1) =
      (List.range (2 * n)).map fun e => f (e / n) (e % n) := by
  rw [← flatMap_range_map]
  simp [List.range_succ]

theorem append_range_map_add (a b : Nat) (f g : Nat → α) :
    (List.range a).map f ++ (List.range b).map g =
      (List.range (a + b)).map fun e => if e < a then f e else g (e - a) := by
  rw [List.range_add, List.map_append, List.map_map]
  refine congrArg₂ (· ++ ·) (List.map_congr_left fun e he => ?_) (List.map_congr_left fun e _ => ?_)
  · exact (if_pos (List.mem_range.mp he)).symm
  · simp

theorem sum_range_mul {K : Type*} [AddCommMonoid K] (k n : Nat) (f : Nat → K) :
    ∑ i ∈ Finset.range (k * n), f i =
      ∑ a ∈ Finset.range k, ∑ c ∈ Finset.range n, f (a * n + c) := by
  induction k with
  | zero => simp
  | succ k ih => rw [Nat.succ_mul, Finset.sum_range_add, ih, Finset.sum_range_succ]

/-- A loop that adds a term a pass. -/
theorem foldl_add_range {K : Type*} [AddCommMonoid K] (f : Nat → K) (n : Nat) (a : K) :
    (List.range n).foldl (fun acc j => acc + f j) a = a + ∑ j ∈ Finset.range n, f j := by
  induction n with
  | zero => simp
  | succ n ih => simp [List.range_succ, ih, Finset.sum_range_succ, add_assoc]

/-- Two accumulators that do not read each other. -/
theorem foldl_prod {β γ : Type*} {f : α → γ → α} {g : β → γ → β} {step : α × β → γ → α × β}
    (h : ∀ acc c, step acc c = (f acc.1 c, g acc.2 c)) (l : List γ) (acc : α × β) :
    l.foldl step acc = (l.foldl f acc.1, l.foldl g acc.2) := by
  induction l generalizing acc with
  | nil => rfl
  | cons c l ih => rw [List.foldl_cons, ih, h, List.foldl_cons, List.foldl_cons]

/-- A loop of calls that all return. -/
theorem mapM_of_forall {β : Type*} {f : α → Option β} {g : α → β} {l : List α}
    (h : ∀ a ∈ l, f a = some (g a)) : l.mapM f = some (l.map g) := by
  induction l with
  | nil => rfl
  | cons a l ih =>
    rw [List.mapM_cons, h a List.mem_cons_self, ih fun b hb => h b (List.mem_cons_of_mem a hb)]
    rfl

theorem mapM_eq_none {β : Type*} {f : α → Option β} {l : List α} {a : α} (ha : a ∈ l)
    (h : f a = none) : l.mapM f = none := by
  induction l with
  | nil => cases ha
  | cons b l ih =>
    rw [List.mapM_cons]
    rcases List.mem_cons.mp ha with rfl | ha
    · rw [h]
      rfl
    · rw [ih ha]
      cases f b <;> rfl

end Ranges

section Stores

variable {α : Type*}

/-- The buffer after the stores, in order. -/
def storeAll (m : Nat → α) (stores : List (Nat × α)) : Nat → α :=
  stores.foldl (fun m s => Function.update m s.1 s.2) m

/-- The stores through the pointer `y + o`. -/
def storesAt (o : Nat) (stores : List (Nat × α)) : List (Nat × α) :=
  stores.map fun s => (o + s.1, s.2)

/-- `*y++ = v` for each value. -/
def emitted (vs : List α) : List (Nat × α) := vs.zipIdx.map fun v => (v.2, v.1)

/-- The stores fill the first `n` cells with the values `val` and touch no other. -/
structure Fills (n : Nat) (val : Nat → α) (stores : List (Nat × α)) : Prop where
  sound : ∀ s ∈ stores, s.1 < n ∧ s.2 = val s.1
  covers : ∀ i < n, ∃ s ∈ stores, s.1 = i

variable {m : Nat → α} {stores : List (Nat × α)} {n i : Nat} {val : Nat → α}

theorem storeAll_of_unstored (h : ∀ s ∈ stores, s.1 ≠ i) : storeAll m stores i = m i := by
  induction stores generalizing m with
  | nil => rfl
  | cons s l ih =>
    rw [storeAll, List.foldl_cons, ← storeAll, ih fun t ht => h t (List.mem_cons_of_mem s ht)]
    exact Function.update_of_ne (h s List.mem_cons_self).symm _ _

/-- The last store to a cell counts, so that it does not matter which it is when all agree. -/
theorem storeAll_of_stored {v : α} (hval : ∀ s ∈ stores, s.1 = i → s.2 = v)
    (h : ∃ s ∈ stores, s.1 = i) : storeAll m stores i = v := by
  induction stores generalizing m with
  | nil => obtain ⟨s, hs, -⟩ := h; cases hs
  | cons s l ih =>
    have htail : ∀ t ∈ l, t.1 = i → t.2 = v := fun t ht => hval t (List.mem_cons_of_mem s ht)
    rw [storeAll, List.foldl_cons, ← storeAll]
    by_cases hlater : ∃ t ∈ l, t.1 = i
    · exact ih htail hlater
    · push Not at hlater
      obtain ⟨t, ht, rfl⟩ := h
      rcases List.mem_cons.mp ht with rfl | ht
      · rw [storeAll_of_unstored hlater, Function.update_self]
        exact hval t List.mem_cons_self rfl
      · exact absurd rfl (hlater t ht)

theorem Fills.storeAll (h : Fills n val stores) :
    storeAll m stores i = if i < n then val i else m i := by
  split_ifs with hi
  · exact storeAll_of_stored (fun s hs hsi => hsi ▸ (h.sound s hs).2) (h.covers i hi)
  · exact storeAll_of_unstored fun s hs heq => hi (heq ▸ (h.sound s hs).1)

theorem Fills.congr {val' : Nat → α} (h : Fills n val stores) (heq : ∀ i < n, val i = val' i) :
    Fills n val' stores :=
  ⟨fun s hs => ⟨(h.sound s hs).1, (h.sound s hs).2.trans (heq _ (h.sound s hs).1)⟩, h.covers⟩

theorem fills_emitted (n : Nat) (val : Nat → α) :
    Fills n val (emitted ((List.range n).map val)) := by
  constructor
  · intro s hs
    obtain ⟨⟨v, k⟩, hv, rfl⟩ := List.mem_map.mp hs
    obtain ⟨hk, hval⟩ := List.mem_zipIdx' hv
    have hlt : k < n := by simpa using hk
    exact ⟨hlt, by simpa using hval⟩
  · intro i hi
    refine ⟨(i, val i), List.mem_map.mpr ⟨(val i, i), ?_, rfl⟩, rfl⟩
    simp [List.mem_zipIdx_iff_getElem?, hi]

/-- A loop whose pass `j` stores the cell `j`. -/
theorem fills_each (val : Nat → α) : Fills n val ((List.range n).map fun j => (j, val j)) := by
  constructor
  · intro s hs
    obtain ⟨j, hj, rfl⟩ := List.mem_map.mp hs
    exact ⟨List.mem_range.mp hj, rfl⟩
  · exact fun i hi => ⟨(i, val i), List.mem_map.mpr ⟨i, List.mem_range.mpr hi, rfl⟩, rfl⟩

/-- A loop over blocks that writes through `y++`, `n` values a block. -/
theorem fills_emitted_blocks (vals : Nat → Nat → α) {stores : Nat → List α} (k : Nat)
    (h : ∀ b, stores b = (List.range n).map (vals b)) :
    Fills (k * n) (fun i => vals (i / n) (i % n)) (emitted ((List.range k).flatMap stores)) := by
  rw [show stores = fun b => (List.range n).map (vals b) from funext h, flatMap_range_map]
  exact fills_emitted _ _

/-- A loop over blocks of `n` cells, one after the other. -/
theorem Fills.blocks {k : Nat} (vals : Nat → Nat → α) {stores : Nat → List (Nat × α)}
    (h : ∀ b < k, Fills n (vals b) (stores b)) :
    Fills (k * n) (fun i => vals (i / n) (i % n))
      ((List.range k).flatMap fun b => storesAt (b * n) (stores b)) := by
  constructor
  · intro s hs
    obtain ⟨b, hb, hs⟩ := List.mem_flatMap.mp hs
    obtain ⟨t, ht, rfl⟩ := List.mem_map.mp hs
    have hbk : b < k := List.mem_range.mp hb
    obtain ⟨hlt, hv⟩ := (h b hbk).sound t ht
    have hnext : (b + 1) * n ≤ k * n := Nat.mul_le_mul_right n hbk
    have hdiv : (b * n + t.1) / n = b := by
      rw [Nat.mul_comm, Nat.mul_add_div (by omega), Nat.div_eq_of_lt hlt, Nat.add_zero]
    have hmod : (b * n + t.1) % n = t.1 := by
      rw [Nat.mul_comm, Nat.mul_add_mod, Nat.mod_eq_of_lt hlt]
    refine ⟨by rw [Nat.succ_mul] at hnext; dsimp only; omega, ?_⟩
    simp only [hdiv, hmod, hv]
  · intro i hi
    have hn : 0 < n := Nat.pos_of_ne_zero fun h0 => by simp [h0] at hi
    have hb : i / n < k := (Nat.div_lt_iff_lt_mul hn).mpr hi
    obtain ⟨t, ht, hti⟩ := (h _ hb).covers (i % n) (Nat.mod_lt i hn)
    refine ⟨(i / n * n + t.1, t.2), List.mem_flatMap.mpr ⟨i / n, List.mem_range.mpr hb,
      List.mem_map.mpr ⟨t, ht, rfl⟩⟩, ?_⟩
    simp only [hti, Nat.div_add_mod']

/-- A loop whose pass `j` stores one cell in each of `k` planes of `n` cells. -/
theorem fills_planes {k : Nat} (f : Nat → Nat → α) :
    Fills (k * n) (fun e => f (e / n) (e % n))
      ((List.range n).flatMap fun j => (List.range k).map fun p => (p * n + j, f p j)) := by
  constructor
  · intro s hs
    simp only [List.mem_flatMap, List.mem_range, List.mem_map] at hs
    obtain ⟨j, hj, p, hp, rfl⟩ := hs
    have hnext : (p + 1) * n ≤ k * n := Nat.mul_le_mul_right n hp
    have hdiv : (p * n + j) / n = p := by
      rw [Nat.mul_comm, Nat.mul_add_div (by omega), Nat.div_eq_of_lt hj, Nat.add_zero]
    have hmod : (p * n + j) % n = j := by rw [Nat.mul_comm, Nat.mul_add_mod, Nat.mod_eq_of_lt hj]
    refine ⟨by rw [Nat.succ_mul] at hnext; dsimp only; omega, ?_⟩
    simp only [hdiv, hmod]
  · intro i hi
    have hn : 0 < n := Nat.pos_of_ne_zero fun h0 => by simp [h0] at hi
    refine ⟨(i / n * n + i % n, f (i / n) (i % n)), ?_, Nat.div_add_mod' i n⟩
    simp only [List.mem_flatMap, List.mem_range, List.mem_map]
    exact ⟨i % n, Nat.mod_lt i hn, i / n, (Nat.div_lt_iff_lt_mul hn).mpr hi, rfl⟩

/-- The loop that stores one cell in each half. -/
theorem fills_halves (f : Nat → Nat → α) :
    Fills (2 * n) (fun e => f (e / n) (e % n))
      ((List.range n).flatMap fun j => [(j, f 0 j), (n + j, f 1 j)]) := by
  have h := fills_planes (k := 2) (n := n) f
  simpa [List.range_succ] using h

end Stores

end VgEngine.Lib
