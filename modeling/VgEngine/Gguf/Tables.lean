import VgEngine.Gguf.Hash
import VgEngine.Gguf.Complete
import VgEngine.Lib.Probing
import Mathlib.Data.List.Perm.Subperm

/-! The name tables hold each name once, with the index of its first occurrence, through all
insertions and growths. -/
namespace VgEngine.Gguf
open VgEngine.Lib

/-- A key with its index. -/
abbrev Entry := List UInt8 × Nat

/-- The home slot of an entry, before it is reduced modulo the capacity. -/
def Entry.home (e : Entry) : Nat := fnv1a e.1

/-- The slots of a name table, for the laws of open addressing. -/
def HashTable.probing (t : HashTable) : ProbeTable Entry := ⟨t.slots⟩

/-- The first entry with a key. -/
def firstEntry (es : List Entry) (key : List UInt8) : Option Entry :=
  es.find? fun e => e.1 == key

section Probe

variable {t : HashTable} {key : List UInt8} {es : List Entry} {i : Nat}

theorem slot_eq_none {i : Nat} (hi : i < t.cap) :
    t.probing.slot i = none ↔ t.slots[i]? = some none := by
  have hlt : i < t.slots.length := hi
  unfold ProbeTable.slot
  rw [show i % t.probing.cap = i from Nat.mod_eq_of_lt hi]
  change (t.slots[i]?).join = none ↔ _
  rw [List.getElem?_eq_getElem hlt, Option.join_some, Option.some.injEq]

theorem slot_eq_some {i : Nat} (hi : i < t.cap) {e : Entry} :
    t.probing.slot i = some e ↔ t.slots[i]? = some (some e) := by
  have hlt : i < t.slots.length := hi
  unfold ProbeTable.slot
  rw [show i % t.probing.cap = i from Nat.mod_eq_of_lt hi]
  change (t.slots[i]?).join = some e ↔ _
  rw [List.getElem?_eq_getElem hlt, Option.join_some, Option.some.injEq]

/-- A search stops at the first entry of a walk that has the key, or else where the walk stops. -/
theorem hashProbe_walk (hcap : 0 < t.cap) (hwalk : ProbeTable.Walk t.probing i es) {probes : Nat}
    (hprobes : es.length < probes) :
    ∃ j, hashProbe t key probes (i % t.cap) = some j ∧
      match firstEntry es key with
      | some e => t.slots[j]? = some (some e)
      | none => j = (i + es.length) % t.cap ∧ t.slots[j]? = some none := by
  induction hwalk generalizing probes with
  | @stop i hstop =>
    obtain ⟨probes, rfl⟩ := Nat.exists_eq_succ_of_ne_zero (Nat.ne_of_gt hprobes)
    have hi : i % t.cap < t.cap := Nat.mod_lt _ hcap
    rw [← ProbeTable.slot_congr (Nat.mod_mod i t.probing.cap), show t.probing.cap = t.cap from rfl,
      slot_eq_none hi] at hstop
    refine ⟨i % t.cap, ?_, rfl, hstop⟩
    simp only [hashProbe, hstop]
  | @step i e es hslot _ ih =>
    obtain ⟨probes, rfl⟩ := Nat.exists_eq_succ_of_ne_zero (Nat.ne_of_gt (Nat.zero_lt_of_lt hprobes))
    have hi : i % t.cap < t.cap := Nat.mod_lt _ hcap
    rw [← ProbeTable.slot_congr (Nat.mod_mod i t.probing.cap), show t.probing.cap = t.cap from rfl,
      slot_eq_some hi] at hslot
    by_cases hkey : e.1 = key
    · refine ⟨i % t.cap, ?_, ?_⟩
      · simp only [hashProbe, hslot, if_pos hkey]
      · simp only [firstEntry, List.find?_cons, beq_iff_eq.2 hkey, hslot]
    · rw [List.length_cons] at hprobes
      obtain ⟨j, hj, hmatch⟩ := ih (Nat.lt_of_succ_lt_succ hprobes)
      have hnext : (i % t.cap + 1) % t.cap = (i + 1) % t.cap := Nat.mod_add_mod _ _ _
      refine ⟨j, ?_, ?_⟩
      · simp only [hashProbe, hslot, if_neg hkey, hnext, hj]
      · have hsum : i + (e :: es).length = i + 1 + es.length := by
          rw [List.length_cons]
          omega
        simp only [firstEntry, List.find?_cons, beq_eq_false_iff_ne.2 hkey, hsum]
        exact hmatch

end Probe

section Entries

/-- What a table holds: `es` in the order of insertion, each key once, and so few of them that
every search comes to an empty slot. -/
structure HashTable.Holds (t : HashTable) (es : List Entry) : Prop where
  held : t.probing.Holds Entry.home es
  keys : (es.map Prod.fst).Nodup
  room : es.length < t.cap

variable {t : HashTable} {es os : List Entry} {key : List UInt8} {index cap : Nat}

theorem HashTable.Holds.cap_pos (h : t.Holds es) : 0 < t.cap := Nat.zero_lt_of_lt h.room

theorem HashTable.Holds.occupied (h : t.Holds es) : t.occupied = es.length := h.held.count

theorem HashTable.Holds.empty (hcap : 0 < cap) : (HashTable.empty cap).Holds [] := by
  constructor
  case held => exact .empty hcap
  case keys => exact List.nodup_nil
  case room => simpa [HashTable.empty, HashTable.cap] using hcap

/-- The search for a key ends, at its entry or at the slot it would be put into. -/
theorem HashTable.Holds.hashFind (h : t.Holds es) (key : List UInt8) :
    ∃ j, hashFind t key = some j ∧
      match firstEntry es key with
      | some e => t.slots[j]? = some (some e)
      | none => j = t.probing.free (fnv1a key) % t.cap ∧ t.slots[j]? = some none := by
  have hroom : t.probing.slots.countP Option.isSome < t.probing.cap := by
    rw [h.held.count]
    exact h.room
  have hcap : 0 < t.probing.cap := h.cap_pos
  obtain ⟨k, hk⟩ := ProbeTable.exists_empty hroom
  have hwalk := ProbeTable.probe_walk hcap hk (fnv1a key)
  -- a probe shorter than the table, since it stops before it is back at its start
  obtain ⟨m, hle, hlt, -, hm⟩ := ProbeTable.exists_empty_from hcap hk (fnv1a key)
  have hlength : (t.probing.probe (fnv1a key)).length < t.cap := by
    have hstop := hwalk.length_le hle hm
    change m < fnv1a key + t.cap at hlt
    omega
  have hfound : firstEntry (t.probing.probe (fnv1a key)) key = firstEntry es key := by
    refine h.held.find? fun e he => ?_
    rw [← beq_iff_eq.1 he]
    rfl
  obtain ⟨j, hj, hmatch⟩ := @hashProbe_walk t key _ _ h.cap_pos hwalk _ hlength
  rw [hfound] at hmatch
  refine ⟨j, ?_, hmatch⟩
  rw [Gguf.hashFind, if_neg (Nat.ne_of_gt h.cap_pos), hj]

theorem HashTable.Holds.lookup (h : t.Holds es) (key : List UInt8) :
    t.lookup key = (firstEntry es key).map Prod.snd := by
  obtain ⟨j, hj, hmatch⟩ := h.hashFind key
  unfold HashTable.lookup
  cases hfirst : firstEntry es key with
  | some e =>
    rw [hfirst] at hmatch
    simp [hj, hmatch]
  | none =>
    rw [hfirst] at hmatch
    simp [hj, hmatch.2]

theorem firstEntry_eq_none : firstEntry es key = none ↔ key ∉ es.map Prod.fst := by
  unfold firstEntry
  rw [List.find?_eq_none, List.mem_map]
  constructor
  · rintro h ⟨e, he, rfl⟩
    exact h e he (beq_self_eq_true e.1)
  · rintro h e he hkey
    exact h ⟨e, he, beq_iff_eq.1 hkey⟩

/-- A new key goes where its search stopped. -/
theorem HashTable.Holds.put (h : t.Holds es) (hkey : firstEntry es key = none)
    (hroom : es.length + 1 < t.cap) :
    (t.put (t.probing.free (fnv1a key) % t.cap) key index).Holds (es ++ [(key, index)]) := by
  rw [firstEntry_eq_none] at hkey
  constructor
  case held =>
    have hnew : (key, index) ∉ es := fun hmem => hkey (List.mem_map.2 ⟨_, hmem, rfl⟩)
    exact h.held.insert hnew hroom
  case keys =>
    rw [List.map_append, List.nodup_append]
    refine ⟨h.keys, List.nodup_singleton key, ?_⟩
    rintro k hk k' hk' rfl
    obtain rfl : k = key := List.mem_singleton.1 hk'
    exact hkey hk
  case room =>
    rw [List.length_append]
    simpa [HashTable.put, HashTable.cap] using hroom

end Entries

section Growth

variable {t : HashTable} {es os : List Entry} {key : List UInt8} {index cap : Nat}

/-- Putting the entries of some slots, with new keys, into a table, one after the other. -/
theorem foldl_put_holds {step : HashTable → Option Entry → HashTable}
    (hnone : ∀ fresh, step fresh none = fresh)
    (hsome : ∀ fresh e i, Gguf.hashFind fresh e.1 = some i → step fresh (some e) = fresh.put i e.1 e.2)
    (ss : List (Option Entry)) (h : t.Holds es)
    (hkeys : ((es ++ ss.filterMap id).map Prod.fst).Nodup)
    (hroom : (es ++ ss.filterMap id).length < t.cap) :
    (ss.foldl step t).Holds (es ++ ss.filterMap id) ∧ (ss.foldl step t).cap = t.cap := by
  induction ss generalizing t es with
  | nil => exact ⟨by simpa using h, rfl⟩
  | cons slot ss ih =>
    cases slot with
    | none =>
      rw [List.foldl_cons, hnone]
      exact ih h hkeys hroom
    | some e =>
      rw [List.filterMap_cons_some (by rfl), List.append_cons] at hkeys hroom ⊢
      have hnew : firstEntry es e.1 = none := by
        rw [List.map_append, List.map_append] at hkeys
        rw [firstEntry_eq_none]
        intro hmem
        have hdisjoint := (List.nodup_append.1 (List.nodup_append.1 hkeys).1).2.2
        exact hdisjoint e.1 hmem e.1 (List.mem_singleton_self e.1) rfl
      have hlength : es.length + 1 < t.cap := by
        simp only [List.length_append, List.length_singleton] at hroom
        omega
      obtain ⟨j, hj, hmatch⟩ := h.hashFind e.1
      rw [hnew] at hmatch
      obtain ⟨rfl, -⟩ := hmatch
      have hput := @HashTable.Holds.put _ _ _ e.2 h hnew hlength
      have hcap : (t.put (t.probing.free (fnv1a e.1) % t.cap) e.1 e.2).cap = t.cap := by
        simp [HashTable.put, HashTable.cap]
      obtain ⟨hholds, hcap'⟩ := ih hput hkeys (by rwa [hcap])
      rw [List.foldl_cons, hsome _ _ _ hj]
      exact ⟨hholds, hcap'.trans hcap⟩

/-- The slots that are occupied hold the entries, in some order. -/
theorem HashTable.Holds.perm (h : t.Holds es) : es.Perm (t.slots.filterMap id) := by
  have hlength : (t.slots.filterMap id).length = es.length := by
    rw [← h.occupied, HashTable.occupied, List.length_filterMap_eq_countP]
    rfl
  have hroom : t.probing.slots.countP Option.isSome < t.probing.cap := by
    rw [h.held.count]
    exact h.room
  have hcap : 0 < t.probing.cap := h.cap_pos
  obtain ⟨k, hk⟩ := ProbeTable.exists_empty hroom
  have hsub : es ⊆ t.slots.filterMap id := by
    intro e he
    have hmet : e ∈ (t.probing.probe e.home).filter
        fun v => v.home % t.probing.cap = e.home % t.probing.cap := by
      rw [h.held.met]
      exact List.mem_filter.2 ⟨he, by simp⟩
    obtain ⟨j, -, -, hj⟩ :=
      (ProbeTable.probe_walk hcap hk e.home).slot_of_mem (List.mem_filter.1 hmet).1
    rw [← ProbeTable.slot_congr (Nat.mod_mod j t.probing.cap)] at hj
    have hslot := (slot_eq_some (Nat.mod_lt j hcap)).1 hj
    exact List.mem_filterMap.2 ⟨some e, List.mem_of_getElem? hslot, rfl⟩
  exact ((List.Nodup.of_map Prod.fst h.keys).subperm hsub).perm_of_length_le hlength.le

theorem firstEntry_eq_some (hkeys : (es.map Prod.fst).Nodup) {e : Entry} :
    firstEntry es key = some e ↔ e ∈ es ∧ e.1 = key := by
  unfold firstEntry
  constructor
  · exact fun h => ⟨List.mem_of_find?_eq_some h, by simpa using List.find?_some h⟩
  · rintro ⟨he, rfl⟩
    cases hfirst : es.find? fun e' => e'.1 == e.1 with
    | none =>
      have hnone := List.find?_eq_none.1 hfirst e he
      exact absurd (beq_self_eq_true e.1) hnone
    | some e' =>
      have hkey : e'.1 = e.1 := by simpa using List.find?_some hfirst
      exact congrArg some (List.inj_on_of_nodup_map hkeys (List.mem_of_find?_eq_some hfirst) he hkey)

/-- Where each key occurs once, the order of the entries does not matter. -/
theorem firstEntry_perm (hkeys : (es.map Prod.fst).Nodup) (hperm : es.Perm os) (key : List UInt8) :
    firstEntry os key = firstEntry es key := by
  have hkeys' : (os.map Prod.fst).Nodup := (hperm.map Prod.fst).nodup_iff.1 hkeys
  refine Option.ext fun e => ?_
  rw [firstEntry_eq_some hkeys, firstEntry_eq_some hkeys', hperm.mem_iff]

/-- The table after its growth holds the same entries. -/
theorem HashTable.Holds.rehash (h : t.Holds es) (hroom : es.length < cap) :
    ∃ os, es.Perm os ∧ (t.rehash cap).Holds os ∧ (t.rehash cap).cap = cap := by
  have hcap : (HashTable.empty cap).cap = cap := List.length_replicate
  have hperm := h.perm
  have hfresh : (HashTable.empty cap).Holds [] := .empty (by omega)
  have hall : (t.rehash cap).Holds ([] ++ t.slots.filterMap id) ∧
      (t.rehash cap).cap = (HashTable.empty cap).cap := by
    unfold HashTable.rehash
    refine foldl_put_holds (fun _ => rfl) (fun fresh e i hi => ?_) t.slots hfresh ?_ ?_
    · simp only [hi]
    · exact (hperm.map Prod.fst).nodup_iff.1 h.keys
    · rwa [List.nil_append, ← hperm.length_eq, hcap]
  exact ⟨_, hperm, hall.1, hall.2.trans hcap⟩

end Growth

/-- The table knows the first occurrence of each key of a list, and is not yet overfull. -/
structure HashTable.Indexes (t : HashTable) (keys : List (List UInt8)) : Prop where
  entries : ∃ es, t.Holds es ∧ (∀ key, (firstEntry es key).map Prod.snd = keys.findIdx? (· == key)) ∧
    es.length ≤ t.cap * 3 / 4
  wide : 4 ≤ t.cap

section Insert

variable {env : Libc} {t t' : HashTable} {keys : List (List UInt8)} {key : List UInt8}
  {c c' : Cursor} {cap : Nat}

theorem HashTable.Indexes.empty (hcap : 4 ≤ cap) : (HashTable.empty cap).Indexes [] := by
  have hlength : (HashTable.empty cap).cap = cap := List.length_replicate
  constructor
  case entries => exact ⟨[], .empty (by omega), fun _ => rfl, Nat.zero_le _⟩
  case wide => rwa [hlength]

theorem HashTable.Indexes.lookup (h : t.Indexes keys) (key : List UInt8) :
    t.lookup key = keys.findIdx? (· == key) := by
  obtain ⟨es, hholds, hfirst, -⟩ := h.entries
  rw [hholds.lookup, hfirst]

theorem HashTable.Indexes.hashFind (h : t.Indexes keys) (key : List UInt8) :
    (hashFind t key).isSome = true := by
  obtain ⟨es, hholds, -⟩ := h.entries
  obtain ⟨j, hj, -⟩ := hholds.hashFind key
  rw [hj]
  rfl

/-- After the growth there is room for one more entry. -/
theorem HashTable.Indexes.grow (h : t.Indexes keys) (hgrow : hashGrow env t c = some (t', c')) :
    ∃ es, t'.Holds es ∧ (∀ key, (firstEntry es key).map Prod.snd = keys.findIdx? (· == key)) ∧
      es.length + 1 ≤ t'.cap * 3 / 4 ∧ 4 ≤ t'.cap := by
  obtain ⟨⟨es, hholds, hfirst, hload⟩, hwide⟩ := h
  unfold hashGrow at hgrow
  rw [hholds.occupied] at hgrow
  split_ifs at hgrow with hroom
  · cases hgrow
    exact ⟨es, hholds, hfirst, hroom, hwide⟩
  · obtain ⟨c'', -, heq⟩ := Option.map_eq_some_iff.1 hgrow
    cases heq
    obtain ⟨os, hperm, hos, hcap⟩ := @HashTable.Holds.rehash _ _ (t.cap * 2) hholds (by omega)
    refine ⟨os, hos, fun key => ?_, ?_, by omega⟩
    · rw [firstEntry_perm hholds.keys hperm, hfirst]
    · rw [← hperm.length_eq, hcap]
      omega

theorem hashGrow_of_plenty (hmem : env.Plenty) (t : HashTable) (c : Cursor) :
    ∃ t' c', hashGrow env t c = some (t', c') := by
  unfold hashGrow
  split_ifs
  · exact ⟨t, c, rfl⟩
  · obtain ⟨c', hc', -⟩ := malloc_of_plenty hmem c
    rw [hc']
    exact ⟨_, _, rfl⟩

theorem findIdx?_concat (keys : List (List UInt8)) (key k : List UInt8) :
    (keys ++ [key]).findIdx? (· == k) =
      (keys.findIdx? (· == k)).or (if key == k then some keys.length else none) := by
  rw [List.findIdx?_append, List.findIdx?_cons, List.findIdx?_nil]
  congr 1
  cases key == k
  · rfl
  · simp

/-- An insertion adds the key at its position, unless it has occurred before. -/
theorem HashTable.Indexes.insert (hmem : env.Plenty) (h : t.Indexes keys) (key : List UInt8)
    (c : Cursor) : (hashInsert env t key keys.length c).1.Indexes (keys ++ [key]) := by
  have hcap : t.cap ≠ 0 := by
    have := h.wide
    omega
  obtain ⟨t', c', hgrow⟩ := hashGrow_of_plenty hmem t c
  obtain ⟨es, hholds, hfirst, hload, hwide⟩ := h.grow hgrow
  obtain ⟨j, hj, hmatch⟩ := hholds.hashFind key
  unfold hashInsert
  simp only [if_neg hcap, hgrow, hj]
  cases hknown : firstEntry es key with
  | some e =>
    rw [hknown] at hmatch
    simp only [hmatch, Option.join_some, Option.isSome_some, if_true]
    refine ⟨⟨es, hholds, fun k => ?_, by omega⟩, hwide⟩
    rw [findIdx?_concat, ← hfirst]
    by_cases hk : key = k
    · subst hk
      rw [hknown]
      rfl
    · rw [if_neg (by simpa using hk), Option.or_none]
  | none =>
    rw [hknown] at hmatch
    obtain ⟨rfl, hslot⟩ := hmatch
    simp only [hslot, Option.join_some, Option.isSome_none, Bool.false_eq_true, if_false]
    have hput := @HashTable.Holds.put _ _ _ keys.length hholds hknown (by omega)
    have hsame : (t'.put (t'.probing.free (fnv1a key) % t'.cap) key keys.length).cap = t'.cap := by
      simp [HashTable.put, HashTable.cap]
    refine ⟨⟨_, hput, fun k => ?_, ?_⟩, by rwa [hsame]⟩
    · rw [findIdx?_concat, ← hfirst, firstEntry, List.find?_append, Option.map_or]
      refine congrArg _ ?_
      cases hk : key == k <;> simp [hk]
    · rw [hsame, List.length_append]
      exact hload

/-- All the names of a file, in its order. -/
theorem HashTable.Indexes.insertAll (hmem : env.Plenty) (more : List (List UInt8))
    (h : t.Indexes keys) (c : Cursor) :
    (hashInsertAll env more keys.length t c).1.Indexes (keys ++ more) := by
  induction more generalizing t keys c with
  | nil => simpa [hashInsertAll] using h
  | cons key more ih =>
    have hnext := ih (h.insert hmem key c) (hashInsert env t key keys.length c).2
    rw [List.append_cons]
    rwa [List.length_append] at hnext

end Insert

end VgEngine.Gguf
