import Mathlib.Data.List.Basic
import Mathlib.Tactic.Ring

/-! Open addressing with linear probing: values are stored from their home slot on, and a probe
walks from a slot to the first empty one. Among the values of one home, a probe meets all that
were inserted, in the order of their insertion. -/
namespace VgEngine.Lib

structure ProbeTable (V : Type*) where
  slots : List (Option V)

namespace ProbeTable

variable {V : Type*}

def cap (t : ProbeTable V) : Nat := t.slots.length

/-- The slot at an index, taken modulo the capacity. -/
def slot (t : ProbeTable V) (i : Nat) : Option V := (t.slots[i % t.cap]?).join

/-- The values met from a slot on, up to the first empty slot. -/
def walk (t : ProbeTable V) : Nat → Nat → List V
  | 0, _ => []
  | fuel + 1, i =>
    match t.slot i with
    | none => []
    | some v => v :: t.walk fuel (i + 1)

def probe (t : ProbeTable V) (i : Nat) : List V := t.walk t.cap i

/-- The index of the first empty slot of a probe. -/
def free (t : ProbeTable V) (i : Nat) : Nat := i + (t.probe i).length

def place (t : ProbeTable V) (i : Nat) (v : V) : ProbeTable V :=
  ⟨t.slots.set (i % t.cap) (some v)⟩

def insert (t : ProbeTable V) (home : Nat) (v : V) : ProbeTable V := t.place (t.free home) v

def empty (cap : Nat) : ProbeTable V := ⟨List.replicate cap none⟩

def insertAll (home : V → Nat) (vs : List V) (t : ProbeTable V) : ProbeTable V :=
  vs.foldl (fun t v => t.insert (home v) v) t

variable {t : ProbeTable V} {i j k : Nat} {v w : V} {vs ws : List V}

theorem mod_ne_of_lt {a b n : Nat} (hab : a < b) (hb : b < a + n) : a % n ≠ b % n := by
  intro h
  have hsub := Nat.sub_mod_eq_zero_of_mod_eq h.symm
  rw [Nat.mod_eq_of_lt (by omega)] at hsub
  omega

theorem slot_congr (h : i % t.cap = j % t.cap) : t.slot i = t.slot j := by
  unfold slot
  rw [h]

theorem walk_congr (h : i % t.cap = j % t.cap) (fuel : Nat) : t.walk fuel i = t.walk fuel j := by
  induction fuel generalizing i j with
  | zero => rfl
  | succ fuel ih =>
    have hnext : (i + 1) % t.cap = (j + 1) % t.cap := by rw [Nat.add_mod, h, ← Nat.add_mod]
    unfold walk
    rw [slot_congr h, ih hnext]

theorem probe_congr (h : i % t.cap = j % t.cap) : t.probe i = t.probe j := walk_congr h t.cap

@[simp] theorem cap_place : (t.place i v).cap = t.cap := by simp [place, cap]

@[simp] theorem cap_insert : (t.insert i v).cap = t.cap := cap_place

theorem slot_place (hcap : 0 < t.cap) :
    (t.place i v).slot j = if i % t.cap = j % t.cap then some v else t.slot j := by
  have hj : j % t.cap < t.slots.length := Nat.mod_lt _ hcap
  unfold slot
  rw [cap_place]
  unfold place
  dsimp only
  rw [List.getElem?_set]
  split_ifs with h hlt
  · rfl
  · omega
  · rfl

/-- A walk from `i` meets the values `vs` and then an empty slot. -/
inductive Walk (t : ProbeTable V) : Nat → List V → Prop
  | stop {i : Nat} (h : t.slot i = none) : Walk t i []
  | step {i : Nat} {v : V} {vs : List V} (h : t.slot i = some v) (hwalk : Walk t (i + 1) vs) :
    Walk t i (v :: vs)

theorem Walk.eq (h : Walk t i vs) {fuel : Nat} (hfuel : vs.length ≤ fuel) :
    t.walk fuel i = vs := by
  induction h generalizing fuel with
  | stop h =>
    cases fuel with
    | zero => rfl
    | succ fuel => simp [walk, h]
  | step h hwalk ih =>
    cases fuel with
    | zero => simp at hfuel
    | succ fuel =>
      rw [List.length_cons] at hfuel
      simp [walk, h, ih (Nat.le_of_succ_le_succ hfuel)]

theorem Walk.slot_stop (h : Walk t i vs) : t.slot (i + vs.length) = none := by
  induction h with
  | stop h => exact h
  | step h hwalk ih =>
    rw [List.length_cons, Nat.add_comm _ 1, ← Nat.add_assoc]
    exact ih

/-- The slots of a walk are occupied, by its values. -/
theorem Walk.slot_of_lt (h : Walk t i vs) (hij : i ≤ j) (hj : j < i + vs.length) :
    ∃ v ∈ vs, t.slot j = some v := by
  induction h with
  | stop h => simp only [List.length_nil] at hj; omega
  | @step i v vs h hwalk ih =>
    rcases Nat.eq_or_lt_of_le hij with rfl | hlt
    · exact ⟨v, List.mem_cons_self, h⟩
    · rw [List.length_cons] at hj
      obtain ⟨w, hw, hslot⟩ := ih hlt (by omega)
      exact ⟨w, List.mem_cons_of_mem v hw, hslot⟩

theorem Walk.slot_of_mem (h : Walk t i vs) (hv : v ∈ vs) :
    ∃ j, i ≤ j ∧ j < i + vs.length ∧ t.slot j = some v := by
  induction h with
  | stop h => cases hv
  | @step i w vs h hwalk ih =>
    rw [List.length_cons]
    rcases List.mem_cons.1 hv with rfl | hv
    · exact ⟨i, Nat.le_refl i, by omega, h⟩
    · obtain ⟨j, hij, hj, hslot⟩ := ih hv
      exact ⟨j, by omega, by omega, hslot⟩

/-- A walk does not pass an empty slot. -/
theorem Walk.length_le (h : Walk t i vs) (hik : i ≤ k) (hk : t.slot k = none) :
    i + vs.length ≤ k := by
  by_contra hlt
  obtain ⟨v, -, hslot⟩ := h.slot_of_lt hik (Nat.lt_of_not_le hlt)
  rw [hk] at hslot
  cases hslot

theorem walk_of_empty (hik : i ≤ k) (hk : t.slot k = none) : ∃ vs, Walk t i vs := by
  induction hn : k - i generalizing i with
  | zero =>
    obtain rfl : i = k := by omega
    exact ⟨[], .stop hk⟩
  | succ n ih =>
    cases hslot : t.slot i with
    | none => exact ⟨[], .stop hslot⟩
    | some v =>
      have hlt : i + 1 ≤ k := by omega
      obtain ⟨vs, hvs⟩ := ih hlt (by omega)
      exact ⟨v :: vs, .step hslot hvs⟩

/-- An empty slot has an index in each round of the table. -/
theorem exists_empty_from (hcap : 0 < t.cap) (hk : t.slot k = none) (i : Nat) :
    ∃ j, i ≤ j ∧ j < i + t.cap ∧ j % t.cap = k % t.cap ∧ t.slot j = none := by
  have hmod : (i + (k + i * (t.cap - 1)) % t.cap) % t.cap = k % t.cap := by
    have hround : i + (k + i * (t.cap - 1)) = k + i * t.cap := by
      obtain ⟨c, hc⟩ := Nat.exists_eq_succ_of_ne_zero hcap.ne'
      rw [hc, Nat.succ_sub_one, Nat.succ_eq_add_one]
      ring
    rw [Nat.add_mod_mod, hround, Nat.add_mul_mod_self_right]
  have hlt := Nat.mod_lt (k + i * (t.cap - 1)) hcap
  refine ⟨_, Nat.le_add_right i _, by omega, hmod, ?_⟩
  rw [slot_congr hmod, hk]

theorem probe_walk (hcap : 0 < t.cap) (hk : t.slot k = none) (i : Nat) : Walk t i (t.probe i) := by
  obtain ⟨j, hij, hj, -, hempty⟩ := exists_empty_from hcap hk i
  obtain ⟨vs, hvs⟩ := walk_of_empty hij hempty
  have hlength := hvs.length_le hij hempty
  rw [probe, hvs.eq (by omega)]
  exact hvs

/-- A probe of a table with an empty slot ends within one round. -/
theorem probe_ends (hcap : 0 < t.cap) (hk : t.slot k = none) (i : Nat) :
    (t.probe i).length < t.cap ∧ t.slot (i + (t.probe i).length) = none := by
  obtain ⟨j, hij, hj, -, hempty⟩ := exists_empty_from hcap hk i
  have hwalk := probe_walk hcap hk i
  have hlength := hwalk.length_le hij hempty
  exact ⟨by omega, hwalk.slot_stop⟩

theorem Walk.probe (h : Walk t i vs) (hcap : 0 < t.cap) : t.probe i = vs := by
  have hwalk := probe_walk hcap h.slot_stop i
  rw [← h.eq (Nat.le_max_left _ (t.probe i).length), hwalk.eq (Nat.le_max_right _ _)]

/-- A value placed elsewhere than where a walk stops leaves the walk as it is. -/
theorem Walk.place_of_ne (h : Walk t i vs) (hcap : 0 < t.cap) (hk : t.slot k = none)
    (hne : k % t.cap ≠ (i + vs.length) % t.cap) : Walk (t.place k v) i vs := by
  induction h with
  | stop h =>
    rw [List.length_nil, Nat.add_zero] at hne
    apply Walk.stop
    rw [slot_place hcap, if_neg hne, h]
  | @step i w vs h hwalk ih =>
    have hi : k % t.cap ≠ i % t.cap := by
      intro heq
      rw [slot_congr heq, h] at hk
      cases hk
    apply Walk.step
    · rw [slot_place hcap, if_neg hi, h]
    · apply ih
      rwa [List.length_cons, Nat.add_comm _ 1, ← Nat.add_assoc] at hne

/-- A value placed where a walk stops is met by it, and then what lies behind. -/
theorem Walk.place_of_eq (h : Walk t i vs) (hcap : 0 < t.cap) (hk : t.slot k = none)
    (heq : k % t.cap = (i + vs.length) % t.cap)
    (hrest : Walk (t.place k v) (i + vs.length + 1) ws) :
    Walk (t.place k v) i (vs ++ v :: ws) := by
  induction h with
  | stop h =>
    rw [List.length_nil, Nat.add_zero] at heq hrest
    refine Walk.step ?_ hrest
    rw [slot_place hcap, if_pos heq]
  | @step i w vs h hwalk ih =>
    have hlength : i + (w :: vs).length = i + 1 + vs.length := by
      rw [List.length_cons]
      omega
    rw [hlength] at heq hrest
    have hi : k % t.cap ≠ i % t.cap := by
      intro hmod
      rw [slot_congr hmod, h] at hk
      cases hk
    refine Walk.step ?_ (ih heq hrest)
    rw [slot_place hcap, if_neg hi, h]

/-- What a table holds after the values `vs` were inserted in this order. -/
structure Holds (t : ProbeTable V) (home : V → Nat) (vs : List V) : Prop where
  unique : ∀ i j v, t.slot i = some v → t.slot j = some v → i % t.cap = j % t.cap
  stored : ∀ i v, t.slot i = some v → v ∈ vs
  count : t.slots.countP Option.isSome = vs.length
  met : ∀ i, (t.probe i).filter (fun v => home v % t.cap = i % t.cap) =
    vs.filter (fun v => home v % t.cap = i % t.cap)

variable {home : V → Nat}

theorem slot_empty : (empty k : ProbeTable V).slot i = none := by
  unfold slot empty
  dsimp only
  rw [List.getElem?_replicate]
  split_ifs <;> rfl

theorem Holds.empty (hcap : 0 < k) : Holds (empty k : ProbeTable V) home [] := by
  constructor
  case unique => simp [slot_empty]
  case stored => simp [slot_empty]
  case count => simp [ProbeTable.empty, List.countP_replicate]
  case met =>
    intro i
    rw [Walk.probe (.stop slot_empty) (by simpa [ProbeTable.empty, cap] using hcap)]

theorem exists_empty (hroom : t.slots.countP Option.isSome < t.cap) : ∃ i, t.slot i = none := by
  by_contra hfull
  push Not at hfull
  have hall : t.slots.countP Option.isSome = t.slots.length := by
    apply List.countP_eq_length.2
    intro s hs
    obtain ⟨i, hi, rfl⟩ := List.getElem_of_mem hs
    have hslot := hfull i
    unfold slot cap at hslot
    rw [Nat.mod_eq_of_lt hi, List.getElem?_eq_getElem hi] at hslot
    exact Option.isSome_iff_ne_none.2 hslot
  exact absurd hall (Nat.ne_of_lt hroom)

theorem countP_place (hcap : 0 < t.cap) (hk : t.slot k = none) :
    (t.place k v).slots.countP Option.isSome = t.slots.countP Option.isSome + 1 := by
  have hlt : k % t.cap < t.slots.length := Nat.mod_lt _ hcap
  have hnone : t.slots[k % t.cap] = none := by
    unfold slot at hk
    rwa [List.getElem?_eq_getElem hlt, Option.join_some] at hk
  unfold place
  rw [List.countP_set hlt, hnone]
  simp

/-- What an insertion does to a probe: where the probe stops at the slot taken, it goes on
through the new value to what lies behind. -/
theorem probe_insert (hcap : 0 < t.cap) (hk : (t.insert i v).slot k = none)
    (hfree : t.slot (t.free i) = none) (j : Nat) :
    (t.free i % t.cap ≠ t.free j % t.cap ∧ (t.insert i v).probe j = t.probe j) ∨
    (t.free i % t.cap = t.free j % t.cap ∧ (t.insert i v).probe j =
      t.probe j ++ v :: t.probe (t.free j + 1) ∧
      t.free j + 1 + (t.probe (t.free j + 1)).length < j + t.cap) := by
  have hwalk := probe_walk hcap hfree j
  by_cases heq : t.free i % t.cap = t.free j % t.cap
  · right
    -- the other empty slot, in the round that starts behind the slot taken
    obtain ⟨k', hle, hlt, hmod, hempty⟩ :=
      exists_empty_from (by simpa using hcap) hk (t.free j + 1)
    rw [cap_insert] at hlt hmod
    have hne : t.free i % t.cap ≠ k' % t.cap := by
      intro hmod'
      unfold insert at hempty
      rw [slot_place hcap, if_pos hmod'] at hempty
      cases hempty
    have hk' : t.slot k' = none := by
      unfold insert at hempty
      rwa [slot_place hcap, if_neg hne] at hempty
    have hbehind := probe_walk hcap hfree (t.free j + 1)
    have hstop := hbehind.length_le hle hk'
    have hk'lt : k' < t.free j + t.cap := by
      by_contra hge
      obtain rfl : k' = t.free j + t.cap := by omega
      rw [Nat.add_mod_right] at hne
      exact hne heq
    have hshort : k' < j + t.cap := by
      by_contra hge
      have hcap' : t.slot (k' - t.cap) = none := by
        rw [← hk']
        apply slot_congr
        rw [← Nat.add_mod_right, Nat.sub_add_cancel (by omega)]
      have hpast := hwalk.length_le (by omega) hcap'
      unfold free at hk'lt
      omega
    have hrest : Walk (t.place (t.free i) v) (t.free j + 1) (t.probe (t.free j + 1)) := by
      apply hbehind.place_of_ne hcap hfree
      rw [heq]
      exact mod_ne_of_lt (by omega) (by omega)
    refine ⟨heq, ?_, by omega⟩
    exact (hwalk.place_of_eq hcap hfree heq hrest).probe (by simpa using hcap)
  · left
    refine ⟨heq, ?_⟩
    exact (hwalk.place_of_ne hcap hfree heq).probe (by simpa using hcap)

theorem Holds.insert (h : Holds t home vs) (hv : v ∉ vs) (hroom : vs.length + 1 < t.cap) :
    Holds (t.insert (home v) v) home (vs ++ [v]) := by
  have hcap : 0 < t.cap := by omega
  obtain ⟨e, he⟩ := exists_empty (t := t) (by rw [h.count]; omega)
  have hfree : t.slot (t.free (home v)) = none := (probe_walk hcap he _).slot_stop
  have hcount : (t.insert (home v) v).slots.countP Option.isSome = (vs ++ [v]).length := by
    rw [ProbeTable.insert, countP_place hcap hfree, h.count, List.length_append]
    rfl
  have hslot (i : Nat) : (t.insert (home v) v).slot i =
      if t.free (home v) % t.cap = i % t.cap then some v else t.slot i := slot_place hcap
  constructor
  case unique =>
    intro i j w hi hj
    rw [hslot] at hi hj
    rw [cap_insert]
    split_ifs at hi hj with hi' hj' hj'
    · exact hi'.symm.trans hj'
    · rw [← Option.some.inj hi] at hj
      exact absurd (h.stored j v hj) hv
    · rw [← Option.some.inj hj] at hi
      exact absurd (h.stored i v hi) hv
    · exact h.unique i j w hi hj
  case stored =>
    intro i w hi
    rw [hslot] at hi
    split_ifs at hi
    · simp [Option.some.inj hi]
    · exact List.mem_append_left _ (h.stored i w hi)
  case count => exact hcount
  case met =>
    intro j
    obtain ⟨k, hk⟩ := exists_empty (t := t.insert (home v) v) (by
      rw [hcount, List.length_append, cap_insert]
      exact hroom)
    rw [cap_insert]
    rcases probe_insert hcap hk hfree j with ⟨hne, hprobe⟩ | ⟨heq, hprobe, hshort⟩
    · -- a value with its home here would have stopped this probe
      have hhome : home v % t.cap ≠ j % t.cap := by
        intro hmod
        apply hne
        unfold free
        rw [probe_congr hmod, Nat.add_mod, hmod, ← Nat.add_mod]
      rw [hprobe, h.met, List.filter_append]
      simp [hhome]
    · -- what lies behind has its home behind
      have hbehind : (t.probe (t.free j + 1)).filter (fun w => home w % t.cap = j % t.cap) =
          [] := by
        apply List.filter_eq_nil_iff.2
        intro w hw
        rw [decide_eq_true_eq]
        intro hmod
        obtain ⟨b, hle, hlt, hb⟩ := (probe_walk hcap he _).slot_of_mem hw
        have hmem : w ∈ (t.probe j).filter fun w => home w % t.cap = j % t.cap := by
          rw [h.met]
          exact List.mem_filter.2 ⟨h.stored b w hb, by simpa using hmod⟩
        obtain ⟨a, hja, haj, ha⟩ :=
          (probe_walk hcap he j).slot_of_mem (List.mem_filter.1 hmem).1
        unfold free at hle hlt hshort
        exact mod_ne_of_lt (by omega) (by omega) (h.unique a b w ha hb)
      rw [hprobe, List.filter_append, h.met, List.filter_append, List.filter_cons, hbehind,
        List.filter_singleton, Bool.cond_eq_ite]

theorem Holds.insertAll (h : Holds t home ws) (hnodup : (ws ++ vs).Nodup)
    (hroom : (ws ++ vs).length < t.cap) :
    Holds (t.insertAll home vs) home (ws ++ vs) ∧ (t.insertAll home vs).cap = t.cap := by
  induction vs generalizing t ws with
  | nil => simpa [ProbeTable.insertAll] using h
  | cons v vs ih =>
    rw [List.append_cons] at hnodup hroom ⊢
    have hv : v ∉ ws := by
      intro hv
      have hdisjoint := (List.nodup_append.1 (List.nodup_append.1 hnodup).1).2.2
      exact hdisjoint v hv v (List.mem_singleton_self v) rfl
    have hlength : ws.length + 1 < t.cap := by
      simp only [List.length_append, List.length_singleton] at hroom
      omega
    have hinsert := h.insert hv hlength
    obtain ⟨hall, hcap⟩ := ih hinsert hnodup (by rwa [cap_insert])
    exact ⟨hall, hcap.trans cap_insert⟩

/-- The table of the values `vs`, inserted in this order into `cap` empty slots. -/
def ofValues (home : V → Nat) (cap : Nat) (vs : List V) : ProbeTable V :=
  (empty cap).insertAll home vs

theorem cap_ofValues (hnodup : vs.Nodup) (hroom : vs.length < k) : (ofValues home k vs).cap = k := by
  have hcap : (empty k : ProbeTable V).cap = k := by simp [empty, cap]
  have hempty : Holds (empty k) home ([] : List V) := .empty (by omega)
  exact (hempty.insertAll hnodup (by rwa [hcap])).2.trans hcap

theorem holds_ofValues (hnodup : vs.Nodup) (hroom : vs.length < k) :
    Holds (ofValues home k vs) home vs := by
  have hcap : (empty k : ProbeTable V).cap = k := by simp [empty, cap]
  have hempty : Holds (empty k) home ([] : List V) := .empty (by omega)
  exact (hempty.insertAll hnodup (by rwa [hcap])).1

/-- Every probe of such a table ends at an empty slot. -/
theorem ofValues_probe_ends (hnodup : vs.Nodup) (hroom : vs.length < k) (i : Nat) :
    ((ofValues home k vs).probe i).length < k ∧
      (ofValues home k vs).slot (i + ((ofValues home k vs).probe i).length) = none := by
  have hcap : (ofValues home k vs).cap = k := cap_ofValues hnodup hroom
  have hholds : Holds (ofValues home k vs) home vs := holds_ofValues hnodup hroom
  obtain ⟨e, he⟩ := exists_empty (t := ofValues home k vs) (by rw [hholds.count, hcap]; exact hroom)
  have hends := probe_ends (by rw [hcap]; omega) he i
  rwa [hcap] at hends

theorem Holds.filter (h : Holds t home vs) {p : V → Bool}
    (hp : ∀ v, p v = true → home v % t.cap = i % t.cap) : (t.probe i).filter p = vs.filter p := by
  have hsplit (ws : List V) :
      (ws.filter fun v => home v % t.cap = i % t.cap).filter p = ws.filter p := by
    rw [List.filter_filter]
    apply List.filter_congr
    intro v _
    by_cases hv : p v = true
    · simp [hv, hp v hv]
    · simp [hv]
  rw [← hsplit, h.met, hsplit]

/-- A probe finds the first value inserted. -/
theorem Holds.find? (h : Holds t home vs) {p : V → Bool}
    (hp : ∀ v, p v = true → home v % t.cap = i % t.cap) : (t.probe i).find? p = vs.find? p := by
  rw [← List.head?_filter, h.filter hp, List.head?_filter]

end ProbeTable

end VgEngine.Lib
