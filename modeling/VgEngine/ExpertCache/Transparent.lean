import VgEngine.ExpertCache.Slots

/-! The expert cache is transparent: along runs of a source that pins its leases, the slices handed
back last are the bytes of their experts. -/
namespace VgEngine.ExpertCache
open Gguf Model TensorSource

variable {file : Handle} {g : Graph}

/-- A slice that is the bytes of its expert, where its pointer points now. -/
def RightSlice (file : Handle) (g : Graph) (s : Slice) : Prop := ∃ i t,
  IsExpert file g.dims s.layer s.kind s.expert s.bytes s.ggmlType i t ∧
    g.read s.data s.bytes = some (sliceOf file t s.expert s.bytes)

/-- What the cache promises. The capacity is at least four, so that the last three slices, the
gate, up and down of one expert, are right together. -/
structure Transparent (file : Handle) (g : Graph) : Prop where
  right : ∀ s ∈ g.served.take g.cache.cap, RightSlice file g s
  unique : (g.cache.slots.map ExpertSlot.key).Nodup
  length : g.cache.slots.length ≤ g.cache.cap
  capacity : 4 ≤ g.cache.cap

/-- The invariant, while the leases `extra` are held besides those of the slots and the others. -/
structure Base (file : Handle) (g : Graph) (extra : List Lease) : Prop where
  sound : Sound file g.source (extra ++ g.leases)
  sized : Sized g.source
  slots : Slots file g.source g.heap g.dims g.cache.clock g.cache.slots
  capacity : 4 ≤ g.cache.cap
  length : g.cache.slots.length ≤ g.cache.cap

/-- The slices handed back last are in slots that are not older than the calls since, with `k` more
calls to come. -/
def Recent (k : Nat) (g : Graph) : Prop := ∀ j s, g.served[j]? = some s → j + k < g.cache.cap →
  ∃ slot ∈ g.cache.slots, slot.slice = s ∧ g.cache.clock ≤ slot.lastUse + (j + k)

section Read

theorem Base.index {extra : List Lease} (h : Base file g extra) :
    g.source.source.file.index = file.index ∧ g.source.source.file.file = file.file := by
  obtain ⟨mapped, directIo, hfile⟩ := h.sound.sameFile
  rw [hfile]
  exact ⟨rfl, rfl⟩

/-- A lease that is held can be read: the bytes at an offset are those of the tensor. -/
theorem Base.read_leased {extra : List Lease} (h : Base file g extra) {l : Lease}
    (hl : l ∈ extra ++ g.leases) {i : Nat} {t : GgufTensor} (ht : file.index.tensorList[i]? = some t)
    (hgrants : Grants g.source i t l) {expert bytes : Nat}
    (hinside : (expert + 1) * bytes ≤ t.nbytes) :
    g.read (.leased l.data (expert * bytes)) bytes = some (sliceOf file t expert bytes) := by
  obtain ⟨htensor, -, hdata⟩ := hgrants
  have hsound := h.sound.lease l hl
  obtain ⟨hindex, hbytes⟩ := h.index
  unfold LeaseSound at hsound
  unfold Graph.read sliceOf
  cases hl : l.data with
  | mapping o =>
    rw [hl] at hdata
    obtain ⟨hmapped, rfl⟩ := hdata
    dsimp only
    rw [if_pos hmapped, hindex, hbytes]
    unfold payload
    rw [slice_slice]
    rw [Nat.add_mul, Nat.one_mul] at hinside
    exact hinside
  | block b =>
    rw [hl] at hsound
    obtain ⟨-, hcell, -, -⟩ := hsound
    have hcontent : content file l.tensor = payload file t := by
      unfold content
      rw [htensor, ht]
    dsimp only
    rw [hcell, hcontent]
    rfl

theorem Base.right_slot (h : Base file g []) {s : ExpertSlot} (hs : s ∈ g.cache.slots) :
    RightSlice file g s.slice := by
  obtain ⟨i, t, hexpert, hbacked⟩ := (h.slots.good s hs).backed
  refine ⟨i, t, hexpert, ?_⟩
  rcases hbacked with ⟨l, hlease, -, hgrants, hdata⟩ | ⟨b, -, -, hdata, -, hcell⟩
  · have hl : l ∈ [] ++ g.leases :=
      List.mem_append_right [] (List.mem_append_left _ (List.mem_filterMap.2 ⟨s, hs, hlease⟩))
    unfold ExpertSlot.slice
    rw [hdata]
    exact h.read_leased hl (findTensor_getElem hexpert.found) hgrants hexpert.inside
  · unfold ExpertSlot.slice Graph.read
    rw [hdata]
    dsimp only
    rw [hcell, Option.map_some]
    unfold sliceOf
    rw [slice_slice (by omega)]
    rfl

theorem Base.transparent (h : Base file g []) (hrecent : Recent 0 g) : Transparent file g where
  right := by
    intro s hs
    obtain ⟨j, hj⟩ := List.mem_iff_getElem?.1 hs
    rw [List.getElem?_take] at hj
    split_ifs at hj with hlt
    obtain ⟨slot, hslot, rfl, -⟩ := hrecent j s hj hlt
    exact h.right_slot hslot
  unique := h.slots.unique
  length := h.length
  capacity := h.capacity

end Read

section Calls

/-- An acquire by name: what it grants, if it does. -/
theorem acquire_spec {st : State} (hsized : Sized st) (name : List UInt8) (desired : Tier)
    (o : Outcome) : Extends st (acquire st name desired o).2 ∧
      Sized (acquire st name desired o).2 ∧ ∀ l, (acquire st name desired o).1 = .ok l →
        ∃ i t, findTensor st.source.file.index name = some (i, t) ∧
          Grants (acquire st name desired o).2 i t l := by
  cases hfind : findTensor st.source.file.index name with
  | none =>
    have herror : acquire st name desired o = (.error .invalid, st) := by
      unfold acquire
      rw [hfind]
    rw [herror]
    refine ⟨.refl st, hsized, ?_⟩
    intro l hl
    cases hl
  | some found =>
    obtain ⟨i, t⟩ := found
    have hgranted : Granted st i t (acquire st name desired o) := acquire_granted hsized hfind
    exact ⟨hgranted.later, hgranted.sized, fun l hl => ⟨i, t, rfl, hgranted.lease l hl⟩⟩

/-- What holds after an acquire that ended in `r`. -/
def Acquired (file : Handle) (name : List UInt8) (r : Except Status Lease × Graph) : Prop :=
  match r.1 with
  | .error _ => Base file r.2 []
  | .ok l => Base file r.2 [l] ∧
      ∃ i t, findTensor file.index name = some (i, t) ∧ Grants r.2.source i t l

theorem Base.acquireWeight (h : Base file g []) {name : List UInt8} {tier : Tier} {o : Outcome}
    (hcontract : (g.acquireWeight name tier o).2.contract) :
    Acquired file name (g.acquireWeight name tier o) := by
  obtain ⟨hlater, hsized, hgrants⟩ := acquire_spec h.sized name tier o
  have hsound : After file g.leases (acquire g.source name tier o) :=
    Sound.acquire h.sound hcontract.2
  have hslots := h.slots.later hlater (Nat.le_refl _) fun _ _ _ _ _ => rfl
  unfold After at hsound
  unfold Acquired Graph.acquireWeight
  dsimp only
  cases hresult : (acquire g.source name tier o).1 with
  | error status =>
    rw [hresult] at hsound
    exact ⟨hsound, hsized, hslots, h.capacity, h.length⟩
  | ok l =>
    rw [hresult] at hsound
    obtain ⟨i, t, hfind, hgrant⟩ := hgrants l hresult
    rw [h.index.1] at hfind
    exact ⟨⟨Sound.perm hsound (List.perm_append_singleton l _), hsized, hslots, h.capacity, h.length⟩,
      i, t, hfind, hgrant⟩

theorem Base.releaseWeight {l : Lease} (h : Base file g [l])
    (hcontract : (g.releaseWeight l g.leases).contract) :
    Base file (g.releaseWeight l g.leases) [] :=
  ⟨Sound.release_cons h.sound hcontract.2, h.sized.release l,
    h.slots.later (release_later g.source l) (Nat.le_refl _) fun _ _ _ _ _ => rfl, h.capacity,
    h.length⟩

/-- The leases beside that of a slot which goes. -/
theorem leases_perm {i : Nat} {v : ExpertSlot} (hv : g.cache.slots[i]? = some v) :
    g.leases.Perm (v.lease.toList ++ ((g.cache.slots.eraseIdx i).filterMap ExpertSlot.lease ++
      g.others)) := by
  obtain ⟨hlt, hget⟩ := List.getElem?_eq_some_iff.1 hv
  have hperm := (List.getElem_cons_eraseIdx_perm hlt).symm.filterMap ExpertSlot.lease
  rw [hget, List.filterMap_cons] at hperm
  unfold Graph.leases
  rw [← List.append_assoc]
  refine List.Perm.append_right g.others (hperm.trans ?_)
  cases v.lease <;> rfl

theorem slots_perm {i : Nat} {v : ExpertSlot} (hv : g.cache.slots[i]? = some v) :
    g.cache.slots.Perm (v :: g.cache.slots.eraseIdx i) := by
  obtain ⟨hlt, hget⟩ := List.getElem?_eq_some_iff.1 hv
  have hperm := (List.getElem_cons_eraseIdx_perm hlt).symm
  rwa [hget] at hperm

/-- A value that can be inserted: good, of an expert of its own, with a copy of its own. -/
structure Insertable (file : Handle) (g : Graph) (value : ExpertSlot) : Prop where
  good : SlotGood file g.source g.heap g.dims value
  key : ∀ s ∈ g.cache.slots, s.key ≠ value.key
  owned : ∀ b, value.owned = some b → ∀ s ∈ g.cache.slots, s.owned ≠ some b

/-- What an insertion leaves. -/
structure Inserted (file : Handle) (g g' : Graph) (slice : Slice) : Prop where
  base : Base file g' []
  served : g'.served = g.served
  newest : ∃ slot ∈ g'.cache.slots, slot.slice = slice ∧ g'.cache.clock = slot.lastUse
  recent : Recent 0 g → Recent 1 g'

theorem Base.insert_room {value : ExpertSlot} (h : Base file g value.lease.toList)
    (hvalue : Insertable file g value) (hroom : g.cache.slots.length < g.cache.cap) :
    Inserted file g (g.cacheInsert value) value.slice := by
  unfold Graph.cacheInsert
  dsimp only
  rw [if_pos hroom]
  have hperm : (g.cache.slots ++ [{ value with lastUse := g.cache.clock + 1 }]).Perm
      ({ value with lastUse := g.cache.clock + 1 } :: g.cache.slots) :=
    List.perm_append_singleton _ _
  have hgood : SlotGood file g.source g.heap g.dims
      { value with lastUse := g.cache.clock + 1 } := ⟨hvalue.good.sized, hvalue.good.backed⟩
  refine ⟨⟨?_, h.sized, ?_, h.capacity, ?_⟩, rfl, ?_, ?_⟩
  · refine h.sound.perm ?_
    unfold Graph.leases
    dsimp only
    rw [List.nil_append, List.filterMap_append, ← List.append_assoc]
    refine List.Perm.append_right g.others ?_
    refine List.perm_append_comm.trans (List.Perm.append_left _ ?_)
    cases value.lease <;> rfl
  · exact (h.slots.cons hgood hvalue.key hvalue.owned rfl).perm hperm.symm
  · dsimp only
    rw [List.length_append]
    exact hroom
  · exact ⟨_, List.mem_append_right _ (List.mem_singleton_self _), rfl, rfl⟩
  · intro hrecent j s hj hlt
    dsimp only at hlt
    obtain ⟨slot, hslot, hslice, hclock⟩ := hrecent j s hj (by omega)
    refine ⟨slot, List.mem_append_left _ hslot, hslice, ?_⟩
    dsimp only
    omega

theorem contract_slotDrop {v : ExpertSlot} {rest : List Lease}
    (hcontract : (g.slotDrop v rest).contract) : g.contract := by
  unfold Graph.slotDrop at hcontract
  cases hl : v.lease with
  | none =>
    rw [hl] at hcontract
    exact hcontract
  | some l =>
    rw [hl] at hcontract
    exact hcontract.1

/-- Dropping a slot gives back its lease and frees its copy, and nothing else. -/
theorem slotDrop_spec {v : ExpertSlot} {rest : List Lease} (hsized : Sized g.source)
    (hsound : Sound file g.source (v.lease.toList ++ rest))
    (hcontract : (g.slotDrop v rest).contract) : ∃ source heap contract,
      g.slotDrop v rest = { g with source := source, heap := heap, contract := contract } ∧
      Sound file source rest ∧ Sized source ∧ Extends g.source source ∧
      heap.next = g.heap.next ∧ ∀ b, v.owned ≠ some b → heap.cells b = g.heap.cells b := by
  have hheap : (Graph.freeOwned g.heap v.owned).next = g.heap.next ∧
      ∀ b, v.owned ≠ some b → (Graph.freeOwned g.heap v.owned).cells b = g.heap.cells b := by
    cases v.owned with
    | none => exact ⟨rfl, fun _ _ => rfl⟩
    | some b => exact ⟨rfl, fun b' hne =>
        Memory.free_cells_of_ne fun heq => hne (congrArg some heq.symm)⟩
  unfold Graph.slotDrop at hcontract ⊢
  cases hl : v.lease with
  | none =>
    rw [hl] at hsound
    exact ⟨_, _, _, rfl, hsound, hsized, .refl _, hheap⟩
  | some l =>
    rw [hl] at hsound hcontract
    exact ⟨_, _, _, rfl, Sound.release_cons hsound hcontract.2, hsized.release l,
      release_later g.source l, hheap⟩

theorem Base.insert_evict {value : ExpertSlot} (h : Base file g value.lease.toList)
    (hvalue : Insertable file g value) (hfull : ¬ g.cache.slots.length < g.cache.cap)
    (hcontract : (g.cacheInsert value).contract) :
    Inserted file g (g.cacheInsert value) value.slice := by
  have hne : g.cache.slots ≠ [] := by
    have hcap := h.capacity
    rintro hnil
    rw [hnil, List.length_nil] at hfull
    omega
  obtain ⟨v, hv, holdest⟩ := oldest_spec hne
  have hlt := (List.getElem?_eq_some_iff.1 hv).1
  unfold Graph.cacheInsert at hcontract ⊢
  dsimp only at hcontract ⊢
  rw [if_neg hfull] at hcontract ⊢
  rw [hv] at hcontract ⊢
  dsimp only at hcontract ⊢
  have hsound : Sound file g.source (v.lease.toList ++ (value.lease.toList ++
      (g.cache.slots.eraseIdx (Graph.oldest g.cache.slots)).filterMap ExpertSlot.lease ++
        g.others)) := by
    refine h.sound.perm ?_
    have hperm := (leases_perm hv).append_left value.lease.toList
    refine hperm.trans ?_
    simp only [← List.append_assoc]
    exact (List.perm_append_comm.append_right _).append_right _
  obtain ⟨source, heap, contract, heq, hsource, hsized, hlater, hnext, hheap⟩ :=
    slotDrop_spec h.sized hsound hcontract
  rw [heq]
  dsimp only
  have hslots := h.slots.perm (slots_perm hv)
  have hsub : ∀ s ∈ g.cache.slots.eraseIdx (Graph.oldest g.cache.slots), s ∈ g.cache.slots :=
    fun s hs => List.mem_of_mem_eraseIdx hs
  have hset : ({ value with lastUse := g.cache.clock + 1 } ::
      g.cache.slots.eraseIdx (Graph.oldest g.cache.slots)).Perm
        (g.cache.slots.set (Graph.oldest g.cache.slots)
          { value with lastUse := g.cache.clock + 1 }) :=
    (List.set_perm_cons_eraseIdx hlt _).symm
  have hgood : SlotGood file source heap g.dims { value with lastUse := g.cache.clock + 1 } := by
    have hlater' := hvalue.good.later hlater hnext.ge fun b hb _ => hheap b fun hvb =>
      hvalue.owned b hb v (List.mem_of_getElem? hv) hvb
    exact ⟨hlater'.sized, hlater'.backed⟩
  have hrest := hslots.tail.later hlater hnext.ge fun s hs b hb _ => hheap b fun hvb =>
    hslots.owned_ne hvb hs hb
  have hnew := hrest.cons hgood (fun s hs => hvalue.key s (hsub s hs))
    (fun b hb s hs => hvalue.owned b hb s (hsub s hs)) rfl
  refine ⟨⟨?_, hsized, hnew.perm hset, h.capacity, ?_⟩, rfl, ?_, ?_⟩
  · refine hsource.perm (List.Perm.append_right g.others ?_)
    refine List.Perm.trans ?_ (hset.filterMap ExpertSlot.lease)
    rw [List.filterMap_cons]
    cases value.lease <;> rfl
  · dsimp only
    rw [List.length_set]
    exact h.length
  · exact ⟨_, hset.mem_iff.1 List.mem_cons_self, rfl, rfl⟩
  · intro hrecent j s hj hlt'
    dsimp only at hlt'
    obtain ⟨slot, hslot, hslice, hclock⟩ := hrecent j s hj (by omega)
    rcases List.mem_cons.1 ((slots_perm hv).mem_iff.1 hslot) with rfl | hslot
    · -- the slot used longest ago is not among the last ones
      have hlength := h.slots.length_le holdest hclock
      omega
    · refine ⟨slot, hset.mem_iff.1 (List.mem_cons_of_mem _ hslot), hslice, ?_⟩
      dsimp only
      omega

/-- An insertion, of a value whose lease, if it has one, is held already. -/
theorem Base.cacheInsert {value : ExpertSlot} (h : Base file g value.lease.toList)
    (hvalue : Insertable file g value) (hcontract : (g.cacheInsert value).contract) :
    Inserted file g (g.cacheInsert value) value.slice := by
  by_cases hroom : g.cache.slots.length < g.cache.cap
  · exact h.insert_room hvalue hroom
  · exact h.insert_evict hvalue hroom hcontract

theorem contract_cacheInsert {value : ExpertSlot} (hcontract : (g.cacheInsert value).contract) :
    g.contract := by
  unfold Graph.cacheInsert at hcontract
  dsimp only at hcontract
  split_ifs at hcontract with hroom
  · exact hcontract
  · cases hv : g.cache.slots[Graph.oldest g.cache.slots]? with
    | none =>
      rw [hv] at hcontract
      exact hcontract
    | some v =>
      rw [hv] at hcontract
      exact contract_slotDrop hcontract

theorem contract_insertSlot {s : ExpertSlot} (hcontract : (g.insertSlot s).2.contract) :
    g.contract :=
  contract_cacheInsert
    (g := { g with cache := { g.cache with misses := g.cache.misses + 1 } }) hcontract

/-- What holds after a call of `acquire_expert` that ended in `r`. -/
def Handed (file : Handle) (g : Graph) (r : Except Status Slice × Graph) : Prop :=
  match r.1 with
  | .error _ => Base file r.2 [] ∧ r.2.served = g.served ∧ (Recent 0 g → Recent 0 r.2)
  | .ok slice => Inserted file g r.2 slice

/-- The slice of an expert that is in range, in the arithmetic of the check and in truth. -/
def InRange (g : Graph) : Action → Prop
  | .expert layer kind expert _ => ∀ i t,
    findTensor g.source.source.file.index (Graph.expertName layer kind) = some (i, t) →
    expert < Graph.stacked t →
    Graph.sliceEnd expert (Decode.expertStride t (g.dims kind).1 (g.dims kind).2) ≤ t.nbytes →
    (expert + 1) * Decode.expertStride t (g.dims kind).1 (g.dims kind).2 ≤ min t.nbytes (2 ^ 64 - 1)
  | _ => True

theorem Handed.of_eq {g₁ : Graph} {r : Except Status Slice × Graph} (h : Handed file g₁ r)
    (hserved : g₁.served = g.served) (hcache : g₁.cache = g.cache) : Handed file g r := by
  have hrecent (k : Nat) : Recent k g → Recent k g₁ := by
    unfold Recent
    rw [hserved, hcache]
    exact id
  unfold Handed at h ⊢
  cases hr : r.1 with
  | error status =>
    rw [hr] at h
    exact ⟨h.1, h.2.1.trans hserved, fun hg => h.2.2 (hrecent 0 hg)⟩
  | ok slice =>
    rw [hr] at h
    exact ⟨h.base, h.served.trans hserved, h.newest, fun hg => h.recent (hrecent 0 hg)⟩

theorem Base.insertSlot {s : ExpertSlot} (h : Base file g s.lease.toList)
    (hs : Insertable file g s) (hcontract : (g.insertSlot s).2.contract) :
    Handed file g (g.insertSlot s) := by
  have hbase : Base file { g with cache := { g.cache with misses := g.cache.misses + 1 } }
      s.lease.toList := ⟨h.sound, h.sized, h.slots, h.capacity, h.length⟩
  have hinserted := hbase.cacheInsert ⟨hs.good, hs.key, hs.owned⟩ hcontract
  exact ⟨hinserted.base, hinserted.served, hinserted.newest, hinserted.recent⟩

theorem Base.alloc {extra : List Lease} (h : Base file g extra) (bytes : List UInt8) :
    Base file { g with heap := g.heap.alloc bytes } extra := by
  refine ⟨h.sound, h.sized, ?_, h.capacity, h.length⟩
  refine h.slots.later (.refl _) (Nat.le_succ _) fun _ _ b _ hb => ?_
  exact Memory.alloc_cells_of_ne hb.ne

/-- A new copy is a block that no slot has. -/
theorem Base.owned_ne {extra : List Lease} (h : Base file g extra) {s : ExpertSlot}
    (hs : s ∈ g.cache.slots) : s.owned ≠ some g.heap.next := by
  intro howned
  obtain ⟨i, t, -, hbacked⟩ := (h.slots.good s hs).backed
  rcases hbacked with ⟨l, -, hnone, -⟩ | ⟨b, -, hsome, -, hlt, -⟩
  · rw [hnone] at howned
    cases howned
  · rw [hsome] at howned
    exact hlt.ne (Option.some.inj howned)

theorem Base.keepSlice {layer expert i : Nat} {kind : Kind} {l : Lease} {t : GgufTensor}
    {mallocOk : Bool} (h : Base file g [l])
    (hcontract : (g.keepSlice layer kind expert l t mallocOk).2.contract)
    (hfind : findTensor file.index (Graph.expertName layer kind) = some (i, t))
    (hgrants : Grants g.source i t l)
    (hkey : ∀ s ∈ g.cache.slots, s.key ≠ (layer, expert, kind))
    (hrange : expert < Graph.stacked t →
      Graph.sliceEnd expert (Decode.expertStride t (g.dims kind).1 (g.dims kind).2) ≤ t.nbytes →
      (expert + 1) * Decode.expertStride t (g.dims kind).1 (g.dims kind).2 ≤
        min t.nbytes (2 ^ 64 - 1)) :
    Handed file g (g.keepSlice layer kind expert l t mallocOk) := by
  unfold Graph.keepSlice at hcontract ⊢
  dsimp only at hcontract ⊢
  by_cases hbad : Graph.stacked t ≤ expert ∨
      Decode.expertStride t (g.dims kind).1 (g.dims kind).2 = 0 ∨
        l.size < Graph.sliceEnd expert (Decode.expertStride t (g.dims kind).1 (g.dims kind).2)
  · rw [if_pos hbad] at hcontract ⊢
    exact ⟨h.releaseWeight hcontract, rfl, id⟩
  · rw [if_neg hbad] at hcontract ⊢
    have hstacked : expert < Graph.stacked t := by omega
    have hend := hrange hstacked (by rw [← hgrants.2.1]; omega)
    have hinside := hend.trans (Nat.min_le_left _ _)
    have hoff : expert * Decode.expertStride t (g.dims kind).1 (g.dims kind).2 % 2 ^ 64 =
        expert * Decode.expertStride t (g.dims kind).1 (g.dims kind).2 := by
      rw [Nat.add_mul] at hend
      exact Nat.mod_eq_of_lt (by omega)
    have hexpert : IsExpert file g.dims layer kind expert
        (Decode.expertStride t (g.dims kind).1 (g.dims kind).2) t.ggmlType i t :=
      ⟨hfind, hstacked, rfl, rfl, hinside⟩
    rw [hoff] at hcontract ⊢
    split_ifs at hcontract ⊢ with hpinned hmalloc
    · -- the lease stays with the slot
      refine Base.insertSlot h ⟨⟨⟨rfl, rfl⟩, i, t, hexpert, ?_⟩, hkey, fun _ hb => by cases hb⟩ hcontract
      exact Or.inl ⟨l, rfl, rfl, hgrants, rfl⟩
    · exact ⟨h.releaseWeight hcontract, rfl, id⟩
    · -- the lease is given back, once its bytes are copied
      have hread := h.read_leased (List.mem_append_left _ (List.mem_singleton_self l))
        (findTensor_getElem hfind) hgrants hinside
      rw [hread, Option.getD_some] at hcontract ⊢
      have hreleased := (h.alloc (sliceOf file t expert
        (Decode.expertStride t (g.dims kind).1 (g.dims kind).2))).releaseWeight
          (contract_insertSlot hcontract)
      refine (Base.insertSlot hreleased ⟨⟨⟨rfl, rfl⟩, i, t, hexpert, ?_⟩, hkey, fun b hb s hs => ?_⟩
        hcontract).of_eq rfl rfl
      · exact Or.inr ⟨g.heap.next, rfl, rfl, rfl, Nat.lt_succ_self _, Memory.alloc_cells_self _ _⟩
      · rw [← Option.some.inj hb]
        exact h.owned_ne hs

theorem contract_keepSlice {layer expert : Nat} {kind : Kind} {l : Lease} {t : GgufTensor}
    {mallocOk : Bool} (hcontract : (g.keepSlice layer kind expert l t mallocOk).2.contract) :
    g.contract := by
  unfold Graph.keepSlice at hcontract
  dsimp only at hcontract
  split_ifs at hcontract
  · exact hcontract.1
  · exact contract_insertSlot hcontract
  · exact hcontract.1
  · exact (contract_insertSlot hcontract).1

theorem Base.missExpert {layer expert : Nat} {kind : Kind} {io : ExpertIo} (h : Base file g [])
    (hcontract : (g.missExpert layer kind expert io).2.contract)
    (hkey : ∀ s ∈ g.cache.slots, s.key ≠ (layer, expert, kind))
    (hrange : InRange g (.expert layer kind expert io)) :
    Handed file g (g.missExpert layer kind expert io) := by
  unfold Graph.missExpert at hcontract ⊢
  rcases hr : g.acquireWeight (Graph.expertName layer kind) .storage io.acquire with ⟨status | l, g'⟩
  all_goals
    have hg' : g' = (g.acquireWeight (Graph.expertName layer kind) .storage io.acquire).2 := by rw [hr]
    have hcache : g'.cache = g.cache := by rw [hg']; rfl
    have hserved : g'.served = g.served := by rw [hg']; rfl
    have hdims : g'.dims = g.dims := by rw [hg']; rfl
    rw [hr] at hcontract
    dsimp only at hcontract ⊢
  · have hacquired := h.acquireWeight (hg' ▸ hcontract)
    rw [hr] at hacquired
    refine ⟨hacquired, hserved, ?_⟩
    unfold Recent
    rw [hserved, hcache]
    exact id
  · have hacquired := h.acquireWeight (hg' ▸ contract_keepSlice hcontract)
    rw [hr] at hacquired
    obtain ⟨hbase, i, t, hfind, hgrants⟩ := hacquired
    have ht : g'.source.source.file.index.tensorList[l.tensor]? = some t := by
      rw [hbase.index.1, hgrants.1]
      exact findTensor_getElem hfind
    rw [ht, Option.getD_some] at hcontract ⊢
    refine (hbase.keepSlice hcontract hfind hgrants ?_ ?_).of_eq hserved hcache
    · rw [hcache]
      exact hkey
    · rw [hdims]
      exact hrange i t (by rw [h.index.1]; exact hfind)

/-- A use of a slot makes it the newest. -/
theorem Base.touch (h : Base file g []) {i : Nat} {s : ExpertSlot}
    (hs : g.cache.slots[i]? = some s) : Inserted file g (g.touch i s) s.slice := by
  have hlt := (List.getElem?_eq_some_iff.1 hs).1
  have hslots := h.slots.perm (slots_perm hs)
  have hset : ({ s with lastUse := g.cache.clock + 1 } :: g.cache.slots.eraseIdx i).Perm
      (g.cache.slots.set i { s with lastUse := g.cache.clock + 1 }) :=
    (List.set_perm_cons_eraseIdx hlt _).symm
  have hgood := h.slots.good s (List.mem_of_getElem? hs)
  have hkeys := hslots.unique
  rw [List.map_cons, List.nodup_cons] at hkeys
  have hnew := hslots.tail.cons (v := { s with lastUse := g.cache.clock + 1 })
    ⟨hgood.sized, hgood.backed⟩ (fun s' hs' heq => hkeys.1 (heq ▸ List.mem_map_of_mem hs'))
    (fun b hb s' hs' => hslots.owned_ne hb hs') rfl
  unfold Graph.touch
  refine ⟨⟨?_, h.sized, hnew.perm hset, h.capacity, ?_⟩, rfl, ?_, ?_⟩
  · refine h.sound.perm ((leases_perm hs).trans ?_)
    rw [← List.append_assoc]
    refine List.Perm.append_right g.others (List.Perm.trans ?_ (hset.filterMap ExpertSlot.lease))
    rw [List.filterMap_cons]
    cases s.lease <;> rfl
  · dsimp only
    rw [List.length_set]
    exact h.length
  · exact ⟨_, hset.mem_iff.1 List.mem_cons_self, rfl, rfl⟩
  · intro hrecent j s' hj hlt'
    dsimp only at hlt'
    obtain ⟨slot, hslot, hslice, hclock⟩ := hrecent j s' hj (by omega)
    rcases List.mem_cons.1 ((slots_perm hs).mem_iff.1 hslot) with rfl | hslot
    · refine ⟨_, hset.mem_iff.1 List.mem_cons_self, hslice, ?_⟩
      dsimp only
      omega
    · refine ⟨slot, hset.mem_iff.1 (List.mem_cons_of_mem _ hslot), hslice, ?_⟩
      dsimp only
      omega

theorem Base.acquireExpert {layer expert : Nat} {kind : Kind} {io : ExpertIo} (h : Base file g [])
    (hcontract : (g.acquireExpert layer kind expert io).2.contract)
    (hrange : InRange g (.expert layer kind expert io)) :
    Handed file g (g.acquireExpert layer kind expert io) := by
  unfold Graph.acquireExpert at hcontract ⊢
  cases hfound : (g.cacheFind layer expert kind).bind fun i =>
      (g.cache.slots[i]?).map fun s => (i, s) with
  | none =>
    rw [hfound] at hcontract
    refine h.missExpert hcontract ?_ hrange
    intro s hs hkey
    have hnone : g.cacheFind layer expert kind ≠ none := by
      unfold Graph.cacheFind
      rw [Ne, List.findIdx?_eq_none_iff]
      intro hall
      have hno := hall s hs
      rw [hkey] at hno
      simp at hno
    obtain ⟨i, hi⟩ := Option.ne_none_iff_exists'.1 hnone
    obtain ⟨hlt, -⟩ := List.findIdx?_eq_some_iff_getElem.1 hi
    rw [hi, Option.bind_some, List.getElem?_eq_getElem hlt] at hfound
    cases hfound
  | some found =>
    obtain ⟨i, s⟩ := found
    rw [hfound] at hcontract
    dsimp only at hcontract ⊢
    obtain ⟨j, hj, hs⟩ := Option.bind_eq_some_iff.1 hfound
    obtain ⟨s', hs', heq⟩ := Option.map_eq_some_iff.1 hs
    obtain ⟨rfl, rfl⟩ := Prod.mk.inj heq
    have hkey : s'.key = (layer, expert, kind) := by
      obtain ⟨hlt, hmatch, -⟩ := List.findIdx?_eq_some_iff_getElem.1 hj
      rw [List.getElem?_eq_getElem hlt] at hs'
      rw [Option.some.inj hs'] at hmatch
      exact eq_of_beq hmatch
    have hdims := (h.slots.good s' (List.mem_of_getElem? hs')).sized
    have hkind : s'.kind = kind := congrArg (fun k => k.2.2) hkey
    rw [hkind] at hdims
    rw [if_pos hdims] at hcontract ⊢
    exact h.touch hs'

theorem contract_record {r : Except Status Slice × Graph}
    (hcontract : (Graph.record r).contract) : r.2.contract := by
  obtain ⟨status | slice, g'⟩ := r <;> exact hcontract

theorem Base.record {r : Except Status Slice × Graph} (h : Handed file g r) (hrecent : Recent 0 g) :
    Base file (Graph.record r) [] ∧ Recent 0 (Graph.record r) := by
  obtain ⟨status | slice, g'⟩ := r
  · exact ⟨h.1, h.2.2 hrecent⟩
  · unfold Handed at h
    dsimp only at h
    refine ⟨⟨h.base.sound, h.base.sized, h.base.slots, h.base.capacity, h.base.length⟩, ?_⟩
    intro j s hj hlt
    unfold Graph.record at hj hlt
    cases j with
    | zero =>
      obtain ⟨slot, hslot, hslice, hclock⟩ := h.newest
      exact ⟨slot, hslot, hslice.trans (Option.some.inj hj), hclock.le⟩
    | succ j =>
      have hj' : g'.served[j]? = some s := by simpa using hj
      exact h.recent hrecent j s hj' hlt

theorem Base.acquire_other (h : Base file g []) {name : List UInt8} {tier : Tier} {o : Outcome}
    (hcontract : (g.call (.acquire name tier o)).contract) :
    Base file (g.call (.acquire name tier o)) [] := by
  have hacquired (hcontract : (g.acquireWeight name tier o).2.contract) :
      Acquired file name (g.acquireWeight name tier o) := h.acquireWeight hcontract
  unfold Graph.call at hcontract ⊢
  dsimp only at hcontract ⊢
  rcases hr : g.acquireWeight name tier o with ⟨status | l, g'⟩
  all_goals
    rw [hr] at hacquired hcontract
    have hbase := hacquired hcontract
    dsimp only
  · exact hbase
  · obtain ⟨hbase, -⟩ := hbase
    have hperm : (l :: (g'.cache.slots.filterMap ExpertSlot.lease ++ g'.others)).Perm
        (g'.cache.slots.filterMap ExpertSlot.lease ++ (g'.others ++ [l])) := by
      rw [← List.append_assoc]
      exact (List.perm_append_singleton l _).symm
    exact ⟨hbase.sound.perm hperm, hbase.sized, hbase.slots, hbase.capacity, hbase.length⟩

theorem Base.release_other (h : Base file g []) {i : Nat}
    (hcontract : (g.call (.release i)).contract) : Base file (g.call (.release i)) [] := by
  unfold Graph.call at hcontract ⊢
  dsimp only at hcontract ⊢
  cases hl : g.others[i]? with
  | none => exact h
  | some l =>
    rw [hl] at hcontract
    obtain ⟨hlt, hget⟩ := List.getElem?_eq_some_iff.1 hl
    have hperm := (List.getElem_cons_eraseIdx_perm hlt).symm
    rw [hget] at hperm
    have hbase : Base file { g with others := g.others.eraseIdx i } [l] := by
      refine ⟨h.sound.perm ?_, h.sized, h.slots, h.capacity, h.length⟩
      exact (hperm.append_left _).trans List.perm_middle
    exact hbase.releaseWeight hcontract

/-- One call keeps the invariant, if the source has kept its contract. -/
theorem Base.call (h : Base file g []) (hrecent : Recent 0 g) {a : Action} (hrange : InRange g a)
    (hcontract : (g.call a).contract) : Base file (g.call a) [] ∧ Recent 0 (g.call a) := by
  cases a with
  | expert layer kind expert io =>
    exact Base.record (h.acquireExpert (contract_record hcontract) hrange) hrecent
  | acquire name tier o =>
    refine ⟨h.acquire_other hcontract, ?_⟩
    have hfields : (g.call (.acquire name tier o)).served = g.served ∧
        (g.call (.acquire name tier o)).cache = g.cache := by
      unfold Graph.call
      dsimp only
      rcases hr : g.acquireWeight name tier o with ⟨status | l, g'⟩
      all_goals
        have hg' : g' = (g.acquireWeight name tier o).2 := by rw [hr]
        have hsame : g'.served = g.served ∧ g'.cache = g.cache := by
          rw [hg']
          exact ⟨rfl, rfl⟩
        exact hsame
    unfold Recent
    rw [hfields.1, hfields.2]
    exact hrecent
  | release i =>
    refine ⟨h.release_other hcontract, ?_⟩
    have hfields : (g.call (.release i)).served = g.served ∧
        (g.call (.release i)).cache = g.cache := by
      unfold Graph.call
      dsimp only
      cases g.others[i]? <;> exact ⟨rfl, rfl⟩
    unfold Recent
    rw [hfields.1, hfields.2]
    exact hrecent

theorem contract_acquireExpert {layer expert : Nat} {kind : Kind} {io : ExpertIo}
    (hcontract : (g.acquireExpert layer kind expert io).2.contract) : g.contract := by
  have hmiss (hcontract : (g.missExpert layer kind expert io).2.contract) : g.contract := by
    unfold Graph.missExpert at hcontract
    rcases hr : g.acquireWeight (Graph.expertName layer kind) .storage io.acquire with
      ⟨status | l, g'⟩
    all_goals
      have hg' : g' = (g.acquireWeight (Graph.expertName layer kind) .storage io.acquire).2 := by
        rw [hr]
      rw [hr] at hcontract
    · exact (hg' ▸ hcontract : (g.acquireWeight _ .storage io.acquire).2.contract).1
    · exact (hg' ▸ contract_keepSlice hcontract :
        (g.acquireWeight _ .storage io.acquire).2.contract).1
  unfold Graph.acquireExpert at hcontract
  cases hfound : (g.cacheFind layer expert kind).bind fun i =>
      (g.cache.slots[i]?).map fun s => (i, s) with
  | none =>
    rw [hfound] at hcontract
    exact hmiss hcontract
  | some found =>
    rw [hfound] at hcontract
    dsimp only at hcontract
    split_ifs at hcontract
    · exact hcontract
    · exact hmiss hcontract

theorem contract_call {a : Action} (hcontract : (g.call a).contract) : g.contract := by
  unfold Graph.call at hcontract
  cases a with
  | expert layer kind expert io =>
    exact contract_acquireExpert (contract_record hcontract)
  | acquire name tier o =>
    dsimp only at hcontract
    rcases hr : g.acquireWeight name tier o with ⟨status | l, g'⟩
    all_goals
      have hg' : g' = (g.acquireWeight name tier o).2 := by rw [hr]
      rw [hr] at hcontract
      exact (hg' ▸ hcontract : (g.acquireWeight name tier o).2.contract).1
  | release i =>
    dsimp only at hcontract
    cases hl : g.others[i]? with
    | none =>
      rw [hl] at hcontract
      exact hcontract
    | some l =>
      rw [hl] at hcontract
      exact hcontract.1

end Calls

section Runs

theorem base_opened (file : Handle) (cfg : Option Config) {cache : Cache} {capacity : Nat}
    (hcache : setExpertCache capacity = .ok cache) (nEmbd nFf : Nat) :
    Base file (Graph.opened file cfg cache nEmbd nFf) [] ∧
      Recent 0 (Graph.opened file cfg cache nEmbd nFf) := by
  have hempty : cache.slots = [] ∧ 4 ≤ cache.cap := by
    unfold setExpertCache at hcache
    split_ifs at hcache
    all_goals
      cases hcache
      unfold cacheInit
      refine ⟨rfl, ?_⟩
      dsimp only
      split_ifs <;> omega
  refine ⟨⟨?_, sized_opened file cfg, ?_, hempty.2, ?_⟩, ?_⟩
  · have hleases : (Graph.opened file cfg cache nEmbd nFf).leases = [] := by
      unfold Graph.leases Graph.opened
      rw [hempty.1]
      rfl
    rw [hleases]
    exact sound_opened file cfg
  · unfold Graph.opened
    dsimp only
    rw [hempty.1]
    exact ⟨by simp, List.nodup_nil, List.nodup_nil, List.nodup_nil, by simp⟩
  · unfold Graph.opened
    dsimp only
    rw [hempty.1]
    exact Nat.zero_le _
  · intro j s hj
    simp [Graph.opened] at hj

end Runs

section Example

theorem inRange_expert_iff {layer expert : Nat} {kind : Kind} {io : ExpertIo} :
    (∀ found ∈ findTensor g.source.source.file.index (Graph.expertName layer kind),
      expert < Graph.stacked found.2 →
      Graph.sliceEnd expert (Decode.expertStride found.2 (g.dims kind).1 (g.dims kind).2) ≤
        found.2.nbytes →
      (expert + 1) * Decode.expertStride found.2 (g.dims kind).1 (g.dims kind).2 ≤
        min found.2.nbytes (2 ^ 64 - 1)) ↔ InRange g (.expert layer kind expert io) :=
  ⟨fun h i t hfound => h (i, t) hfound, fun h found hfound => h found.1 found.2 hfound⟩

instance (g : Graph) (a : Action) : Decidable (InRange g a) :=
  match a with
  | .expert _ _ _ _ => decidable_of_iff _ inRange_expert_iff
  | .acquire _ _ _ => isTrue trivial
  | .release _ => isTrue trivial

/-- The gate weights of four experts, one number each. -/
def fourExperts : FixFile where
  metas := []
  tensors := [⟨Graph.expertName 0 .gate, [1, 1, 4], 0, List.replicate 16 7⟩]

def expertsGguf : GgufFile := ⟨writeFile fourExperts, by decide +kernel, by decide +kernel⟩

def expertsHandle : Handle where
  index := match parseIndex plainLibc expertsGguf with
    | .ok g => g
    | .error e => e.2
  file := expertsGguf
  mapped := false
  directIo := false

def expert (e : Nat) : Action := .expert 0 .gate e ⟨smooth, true⟩

theorem toOption_eq_some {ε α : Type} {r : Except ε α} {a : α} (h : r.toOption = some a) :
    r = .ok a := by
  cases r with
  | error e => cases h
  | ok b => exact congrArg Except.ok (Option.some.inj h)

/-- The first slice of a mapped tensor asks the source for nothing but its lease. -/
theorem exec_first {layer expert : Nat} {kind : Kind} {io : ExpertIo} {l : Lease} {slice : Slice}
    (hok : (g.acquireExpert layer kind expert io).1.toOption = some slice)
    (hl : (acquire g.source (Graph.expertName layer kind) .storage io.acquire).1.toOption = some l)
    (hmapped : l.mapped = true) (hslots : g.cache.slots = []) (hcap : 0 < g.cache.cap)
    (hentries : g.source.source.entries = []) (hcontract : g.contract) :
    ∃ g', Run.exec Graph.step g [.expert layer kind expert io] = some g' ∧ g'.contract ∧
      g'.cache.cap = g.cache.cap ∧ slice ∈ g'.served.take g.cache.cap := by
  have hfinds : FindsEntry ⟨g.source, g.leases⟩
      (.acquire (Graph.expertName layer kind) .storage io.acquire) := by
    intro tensor t i e _ hfind he
    dsimp only at he
    rw [hentries] at he
    simp at he
  have hexec : Run.exec Graph.step g [.expert layer kind expert io] =
      some (Graph.record (g.missExpert layer kind expert io)) := by
    unfold Run.exec Graph.step Graph.call Graph.acquireExpert Graph.cacheFind
    rw [hslots]
    rfl
  have hmiss : g.acquireExpert layer kind expert io = g.missExpert layer kind expert io := by
    unfold Graph.acquireExpert Graph.cacheFind
    rw [hslots]
    rfl
  refine ⟨_, hexec, ?_⟩
  rw [hmiss] at hok
  unfold Graph.missExpert Graph.acquireWeight at hok ⊢
  dsimp only at hok ⊢
  rw [toOption_eq_some hl] at hok ⊢
  dsimp only at hok ⊢
  unfold Graph.keepSlice at hok ⊢
  dsimp only at hok ⊢
  rw [if_pos (Or.inr hmapped)] at hok ⊢
  split_ifs at hok ⊢ with hbad
  · cases hok
  · obtain rfl := Option.some.inj hok
    unfold Graph.insertSlot Graph.cacheInsert Graph.record
    dsimp only
    rw [if_pos (by rw [hslots]; exact hcap)]
    refine ⟨⟨hcontract, hfinds⟩, rfl, ?_⟩
    rw [List.take_cons hcap]
    exact List.mem_cons_self

/-- Matrices of `2 ^ 30` rows and columns. -/
def wideGraph : Graph := .opened expertsHandle none (cacheInit 8) (2 ^ 30) (2 ^ 30)

end Example

end VgEngine.ExpertCache
