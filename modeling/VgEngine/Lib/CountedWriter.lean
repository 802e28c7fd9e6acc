import VgEngine.Lib.Stores

/-! Writers that count everything and store what has room, with a terminator behind it, and blocks
of memory that grow to take what they write. -/
namespace VgEngine.Lib

variable {α : Type*}

section Writer

/-- `if (out < len) buf[out] = c;`, where there is a buffer. -/
def putAt (buf : Option Nat) (out : Nat) (c : α) : List (Nat × α) :=
  match buf with
  | none => []
  | some len => if out < len then [(out, c)] else []

/-- One value after the other, the count going on without room. -/
def putFrom (buf : Option Nat) (out : Nat) : List α → List (Nat × α)
  | [] => []
  | c :: cs => putAt buf out c ++ putFrom buf (out + 1) cs

/-- `buf[out < len ? out : len - 1] = zero;`, where there is a buffer with room. -/
def terminate (buf : Option Nat) (out : Nat) (zero : α) : List (Nat × α) :=
  match buf with
  | some (len + 1) => [(if out < len + 1 then out else len, zero)]
  | _ => []

/-- All that is written of `full`. -/
def written (buf : Option Nat) (full : List α) (zero : α) : List (Nat × α) :=
  putFrom buf 0 full ++ terminate buf full.length zero

variable {buf : Option Nat} {full : List α} {zero : α} {out len i : Nat} {s : Nat × α}

theorem putFrom_append (xs ys : List α) :
    putFrom buf out (xs ++ ys) = putFrom buf out xs ++ putFrom buf (out + xs.length) ys := by
  induction xs generalizing out with
  | nil => rfl
  | cons c xs ih =>
    rw [List.cons_append, putFrom, ih, putFrom, List.append_assoc, List.length_cons, Nat.add_assoc,
      Nat.add_comm 1]

theorem putFrom_none (xs : List α) : putFrom none out xs = [] := by
  induction xs generalizing out with
  | nil => rfl
  | cons c xs ih => rw [putFrom, ih]; rfl

theorem putFrom_zero (xs : List α) : putFrom (some 0) out xs = [] := by
  induction xs generalizing out with
  | nil => rfl
  | cons c xs ih => rw [putFrom, ih]; rfl

theorem mem_putFrom {xs : List α} :
    s ∈ putFrom (some len) out xs ↔ out ≤ s.1 ∧ s.1 < len ∧ xs[s.1 - out]? = some s.2 := by
  induction xs generalizing out with
  | nil => simp [putFrom]
  | cons c xs ih =>
    have hfirst : s ∈ putAt (some len) out c ↔ s.1 = out ∧ s.1 < len ∧ c = s.2 := by
      unfold putAt
      dsimp only
      split_ifs with hroom
      · rw [List.mem_singleton]
        constructor
        · rintro rfl
          exact ⟨rfl, hroom, rfl⟩
        · rintro ⟨rfl, -, rfl⟩
          rfl
      · refine iff_of_false List.not_mem_nil ?_
        rintro ⟨rfl, hlt, -⟩
        exact hroom hlt
    rw [putFrom, List.mem_append, hfirst, ih]
    constructor
    · rintro (⟨rfl, hlt, rfl⟩ | ⟨hle, hlt, hval⟩)
      · exact ⟨Nat.le_refl _, hlt, by simp⟩
      · obtain ⟨k, hk⟩ : ∃ k, s.1 = out + 1 + k := ⟨s.1 - (out + 1), by omega⟩
        have hindex : s.1 - out = k + 1 := by omega
        have hindex' : s.1 - (out + 1) = k := by omega
        rw [hindex'] at hval
        exact ⟨by omega, hlt, by rw [hindex, List.getElem?_cons_succ, hval]⟩
    · rintro ⟨hle, hlt, hval⟩
      rcases Nat.eq_or_lt_of_le hle with heq | hgt
      · rw [← heq, Nat.sub_self, List.getElem?_cons_zero] at hval
        exact Or.inl ⟨heq.symm, hlt, Option.some.inj hval⟩
      · obtain ⟨k, hk⟩ : ∃ k, s.1 = out + 1 + k := ⟨s.1 - (out + 1), by omega⟩
        have hindex : s.1 - out = k + 1 := by omega
        have hindex' : s.1 - (out + 1) = k := by omega
        rw [hindex, List.getElem?_cons_succ] at hval
        exact Or.inr ⟨hgt, hlt, by rw [hindex', hval]⟩

/-- Nothing is written without a buffer, and nothing behind one. -/
theorem lt_of_mem_written (h : s ∈ written buf full zero) : ∃ len, buf = some len ∧ s.1 < len := by
  unfold written terminate at h
  rcases List.mem_append.1 h with h | h
  · cases buf with
    | none => rw [putFrom_none] at h; cases h
    | some len => exact ⟨len, rfl, (mem_putFrom.1 h).2.1⟩
  · split at h
    · obtain rfl := List.mem_singleton.1 h
      refine ⟨_, rfl, ?_⟩
      dsimp only
      split_ifs with hroom
      · exact hroom
      · exact Nat.lt_succ_self _
    · cases h

theorem storeAll_append (m : Nat → α) (xs ys : List (Nat × α)) :
    storeAll m (xs ++ ys) = storeAll (storeAll m xs) ys := List.foldl_append

theorem storeAll_putFrom (m : Nat → α) :
    storeAll m (putFrom (some len) 0 full) i =
      if i < len then (full[i]?).getD (m i) else m i := by
  by_cases hstored : i < len ∧ i < full.length
  · obtain ⟨hlt, hin⟩ := hstored
    rw [if_pos hlt, List.getElem?_eq_getElem hin, Option.getD_some]
    apply storeAll_of_stored
    · rintro s hs rfl
      have hval := (mem_putFrom.1 hs).2.2
      rw [Nat.sub_zero, List.getElem?_eq_getElem hin] at hval
      exact (Option.some.inj hval).symm
    · exact ⟨(i, full[i]), mem_putFrom.2 ⟨Nat.zero_le _, hlt, List.getElem?_eq_getElem hin⟩, rfl⟩
  · rw [storeAll_of_unstored]
    · split_ifs with hlt
      · rw [List.getElem?_eq_none (by omega)]
        rfl
      · rfl
    · rintro s hs rfl
      obtain ⟨-, hlt, hval⟩ := mem_putFrom.1 hs
      refine hstored ⟨hlt, ?_⟩
      by_contra hover
      rw [Nat.sub_zero, List.getElem?_eq_none (by omega)] at hval
      cases hval

/-- A buffer holds a prefix of what was to be written and a terminator, and behind these what it
held before. -/
theorem storeAll_written (m : Nat → α) (len : Nat) :
    storeAll m (written (some (len + 1)) full zero) i =
      if i < min full.length len then (full[i]?).getD zero
      else if i = min full.length len then zero else m i := by
  have hlast : (if full.length < len + 1 then full.length else len) = min full.length len := by
    split_ifs <;> omega
  unfold written terminate
  rw [storeAll_append]
  dsimp only
  rw [hlast, storeAll, List.foldl_cons, List.foldl_nil]
  by_cases hend : i = min full.length len
  · rw [if_neg (by omega), if_pos hend, ← hend, Function.update_self]
  · rw [Function.update_of_ne hend, storeAll_putFrom]
    by_cases hin : i < min full.length len
    · rw [if_pos (by omega), if_pos hin, List.getElem?_eq_getElem (by omega)]
      rfl
    · rw [if_neg hin, if_neg hend]
      split_ifs with hlt
      · rw [List.getElem?_eq_none (by omega)]
        rfl
      · rfl

end Writer

section Block

/-- A block of the heap. -/
structure Block (α : Type*) where
  cap : Nat
  cell : Nat → α

namespace Block

/-- Stores into the block; `none` is a store behind its end. -/
def stores (b : Block α) (l : List (Nat × α)) : Option (Block α) :=
  if ∀ s ∈ l, s.1 < b.cap then some { b with cell := storeAll b.cell l } else none

/-- A block of another size, with the old cells as far as it has them. -/
def realloc (b : Block α) (junk : Nat → α) (cap : Nat) : Block α :=
  ⟨cap, fun i => if i < b.cap then b.cell i else junk i⟩

/-- The block starts with these cells. -/
structure Holds (b : Block α) (full : List α) : Prop where
  room : full.length ≤ b.cap
  cells : ∀ i < full.length, full[i]? = some (b.cell i)

variable {b : Block α} {full piece : List α} {cap : Nat}

theorem Holds.realloc (h : b.Holds full) (junk : Nat → α) (hcap : b.cap ≤ cap) :
    (b.realloc junk cap).Holds full := by
  refine ⟨h.room.trans hcap, fun i hi => ?_⟩
  unfold Block.realloc
  dsimp only
  rw [if_pos (hi.trans_le h.room)]
  exact h.cells i hi

theorem storeAll_storesAt (m : Nat → α) (o : Nat) (l : List (Nat × α)) (j : Nat) :
    storeAll m (storesAt o l) (o + j) = storeAll (fun j => m (o + j)) l j := by
  induction l generalizing m with
  | nil => rfl
  | cons s l ih =>
    have hupdate : (fun j => Function.update m (o + s.1) s.2 (o + j)) =
        Function.update (fun j => m (o + j)) s.1 s.2 := by
      funext j
      by_cases hj : j = s.1
      · rw [hj, Function.update_self, Function.update_self]
      · rw [Function.update_of_ne hj, Function.update_of_ne (by omega)]
    rw [storesAt, List.map_cons, storeAll, List.foldl_cons, ← storeAll, ← storesAt, ih, hupdate]
    rfl

theorem storeAll_storesAt_of_lt (m : Nat → α) {o i : Nat} (l : List (Nat × α)) (hi : i < o) :
    storeAll m (storesAt o l) i = m i := by
  apply storeAll_of_unstored
  intro s hs
  obtain ⟨t, -, rfl⟩ := List.mem_map.1 hs
  dsimp only
  omega

/-- With room for a piece and its terminator, the piece is appended. -/
theorem Holds.append (h : b.Holds full) (zero : α) (hroom : full.length + piece.length < b.cap) :
    ∃ b', b.stores (storesAt full.length (written (some (b.cap - full.length)) piece zero)) =
        some b' ∧ b'.cap = b.cap ∧ b'.Holds (full ++ piece) := by
  obtain ⟨len, hlen⟩ : ∃ len, b.cap - full.length = len + 1 :=
    ⟨b.cap - full.length - 1, by omega⟩
  have hin : ∀ s ∈ storesAt full.length (written (some (b.cap - full.length)) piece zero),
      s.1 < b.cap := by
    intro s hs
    obtain ⟨t, ht, rfl⟩ := List.mem_map.1 hs
    obtain ⟨len', hlen', hlt⟩ := lt_of_mem_written ht
    obtain rfl := Option.some.inj hlen'
    dsimp only
    omega
  unfold stores
  rw [if_pos hin]
  refine ⟨_, rfl, rfl, ⟨?_, fun i hi => ?_⟩⟩
  · rw [List.length_append]
    exact hroom.le
  · dsimp only
    rw [List.length_append] at hi
    by_cases hold : i < full.length
    · rw [List.getElem?_append_left hold, storeAll_storesAt_of_lt _ _ hold]
      exact h.cells i hold
    · obtain ⟨j, rfl⟩ : ∃ j, i = full.length + j := ⟨i - full.length, by omega⟩
      rw [List.getElem?_append_right (by omega), Nat.add_sub_cancel_left, storeAll_storesAt, hlen,
        storeAll_written, if_pos (by omega), List.getElem?_eq_getElem (by omega)]
      rfl

/-- A store behind what the block holds. -/
theorem Holds.store_end (h : b.Holds full) (zero : α) (hroom : full.length < b.cap) :
    ∃ b', b.stores [(full.length, zero)] = some b' ∧ b'.cap = b.cap ∧ b'.Holds (full ++ [zero]) := by
  unfold stores
  rw [if_pos (by simpa using hroom)]
  refine ⟨_, rfl, rfl, ⟨by simpa using hroom, fun i hi => ?_⟩⟩
  rw [List.length_append, List.length_singleton] at hi
  rw [storeAll, List.foldl_cons, List.foldl_nil]
  dsimp only
  by_cases hold : i < full.length
  · rw [List.getElem?_append_left hold, Function.update_of_ne (by omega)]
    exact h.cells i hold
  · obtain rfl : i = full.length := by omega
    rw [List.getElem?_concat_length, Function.update_self]

end Block

end Block

end VgEngine.Lib
