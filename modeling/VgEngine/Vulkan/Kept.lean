import VgEngine.Vulkan.Cache
import Mathlib.Algebra.BigOperators.Group.List.Basic

/-! What every call leaves of the cache: stamps and buffers apart, a total that is the sum,
live buffers that no scratch pool holds. -/
namespace VgEngine.Vulkan

/-- Every buffer in use was handed out, and no pool holds one of `bs`. -/
structure Separate (bs : List Nat) (v : VK) : Prop where
  fresh : ∀ b, v.buffers.next ≤ b → v.buffers.cells b = none
  below : ∀ b ∈ bs, b < v.buffers.next
  pools : ∀ p slot size b, v.pools p slot = some (size, b) → b < v.buffers.next ∧ b ∉ bs

/-- What is gone stays gone. -/
structure Outlives (v v' : VK) : Prop where
  next : v.buffers.next ≤ v'.buffers.next
  gone : ∀ b < v.buffers.next, v.buffers.cells b = none → v'.buffers.cells b = none

/-- Work that leaves the cache and the buffers `bs` as they are. -/
structure Beside (bs : List Nat) (v v' : VK) : Prop where
  outlives : Outlives v v'
  cache : v'.cache = v.cache
  clock : v'.cacheClock = v.cacheClock
  total : v'.cacheTotal = v.cacheTotal
  same : ∀ b ∈ bs, v'.buffers.cells b = v.buffers.cells b
  separate : Separate bs v'

section Beside

variable {driver : Driver} {bs : List Nat} {v v' v'' : VK} {bytes : UInt64}

theorem Outlives.refl (v : VK) : Outlives v v := ⟨Nat.le_refl _, fun _ _ h => h⟩

theorem Outlives.trans (h : Outlives v v') (h' : Outlives v' v'') : Outlives v v'' := by
  constructor
  · exact h.next.trans h'.next
  · intro b hb hgone
    apply h'.gone b (Nat.lt_of_lt_of_le hb h.next)
    exact h.gone b hb hgone

theorem Beside.refl (h : Separate bs v) : Beside bs v v :=
  ⟨Outlives.refl v, rfl, rfl, rfl, fun _ _ => rfl, h⟩

theorem Beside.trans (h : Beside bs v v') (h' : Beside bs v' v'') : Beside bs v v'' := by
  constructor
  · exact h.outlives.trans h'.outlives
  · rw [h'.cache, h.cache]
  · rw [h'.clock, h.clock]
  · rw [h'.total, h.total]
  · intro b hb
    rw [h'.same b hb, h.same b hb]
  · exact h'.separate

theorem destroyBuffer_next (b : Nat) : (v.destroyBuffer b).buffers.next = v.buffers.next := by
  unfold VK.destroyBuffer
  split <;> rfl

theorem destroyBuffer_cells (b c : Nat) : (v.destroyBuffer b).buffers.cells c =
    if c = b then none else v.buffers.cells c := by
  unfold VK.destroyBuffer
  split
  · rename_i hnone
    split
    · rename_i heq
      rw [heq, hnone]
    · rfl
  · rfl

theorem destroyBuffer_fields (b : Nat) : (v.destroyBuffer b).cache = v.cache ∧
    (v.destroyBuffer b).cacheClock = v.cacheClock ∧
    (v.destroyBuffer b).cacheTotal = v.cacheTotal ∧ (v.destroyBuffer b).pools = v.pools := by
  unfold VK.destroyBuffer
  split <;> simp

theorem destroyBuffer_outlives (b : Nat) : Outlives v (v.destroyBuffer b) := by
  constructor
  · rw [destroyBuffer_next]
  · intro c _ hc
    rw [destroyBuffer_cells, hc, ite_self]

theorem destroyBuffer_separate (h : Separate bs v) (b : Nat) : Separate bs (v.destroyBuffer b) := by
  obtain ⟨-, -, -, hpools⟩ := destroyBuffer_fields (v := v) b
  constructor
  · intro c hc
    rw [destroyBuffer_next] at hc
    rw [destroyBuffer_cells, h.fresh c hc, ite_self]
  · rw [destroyBuffer_next]
    exact h.below
  · rw [hpools, destroyBuffer_next]
    exact h.pools

theorem destroyBuffer_beside (h : Separate bs v) {b : Nat} (hb : b ∉ bs) :
    Beside bs v (v.destroyBuffer b) := by
  obtain ⟨hcache, hclock, htotal, -⟩ := destroyBuffer_fields (v := v) b
  refine ⟨destroyBuffer_outlives b, hcache, hclock, htotal, ?_, destroyBuffer_separate h b⟩
  intro c hc
  rw [destroyBuffer_cells, if_neg]
  rintro rfl
  exact hb hc

variable (driver) in
/-- A buffer of the device is new, or there is none. -/
theorem makeBufferEx_beside (h : Separate bs v) (bytes : UInt64) (deviceLocal : Bool) :
    Beside bs v (v.makeBufferEx driver bytes deviceLocal).2 ∧
      (v.makeBufferEx driver bytes deviceLocal).2.pools = v.pools ∧
      ∀ b, (v.makeBufferEx driver bytes deviceLocal).1 = .ok b → b = v.buffers.next ∧
        b < (v.makeBufferEx driver bytes deviceLocal).2.buffers.next ∧
        ((v.makeBufferEx driver bytes deviceLocal).2.buffers.cells b).isSome := by
  have hmade : ∀ mapped, Beside bs v { v with
      memoryAllocated := v.memoryAllocated + bytes
      buffers := v.buffers.alloc ⟨bytes, mapped⟩
      calls := v.calls + 1 } := by
    intro mapped
    have hne : ∀ b, b < v.buffers.next → b ≠ v.buffers.next := fun b hb => Nat.ne_of_lt hb
    constructor
    · constructor
      · exact Nat.le_succ _
      · intro b hb hgone
        exact (Memory.alloc_cells_of_ne (hne b hb)).trans hgone
    · rfl
    · rfl
    · rfl
    · intro b hb
      exact Memory.alloc_cells_of_ne (hne b (h.below b hb))
    · constructor
      · intro b hb
        have hlt : v.buffers.next < b := hb
        exact (Memory.alloc_cells_of_ne (Nat.ne_of_gt hlt)).trans (h.fresh b hlt.le)
      · intro b hb
        exact Nat.lt_succ_of_lt (h.below b hb)
      · intro p slot size b hpool
        obtain ⟨hlt, hmem⟩ := h.pools p slot size b hpool
        exact ⟨Nat.lt_succ_of_lt hlt, hmem⟩
  have hkeep : ∀ allocated calls, Beside bs v { v with
      memoryAllocated := allocated, calls := calls } := fun _ _ =>
    ⟨⟨Nat.le_refl _, fun _ _ hgone => hgone⟩, rfl, rfl, rfl, fun _ _ => rfl,
      ⟨h.fresh, h.below, h.pools⟩⟩
  unfold VK.makeBufferEx
  split
  · exact ⟨Beside.refl h, rfl, by simp⟩
  split
  · exact ⟨Beside.refl h, rfl, by simp⟩
  cases driver.allocate v.calls deviceLocal with
  | refused => exact ⟨hkeep _ _, rfl, by simp⟩
  | failed status => exact ⟨hkeep _ _, rfl, by simp⟩
  | host => exact ⟨hmade true, rfl, by simp [Memory.alloc_cells_self]⟩
  | device => exact ⟨hmade false, rfl, by simp [Memory.alloc_cells_self]⟩

theorem setPool_beside (h : Separate bs v) (p : Pool) (slot : Nat) {entry : Option (UInt64 × Nat)}
    (hentry : ∀ size b, entry = some (size, b) → b < v.buffers.next ∧ b ∉ bs) :
    Beside bs v (v.setPool p slot entry) := by
  refine ⟨⟨Nat.le_refl _, fun _ _ hgone => hgone⟩, rfl, rfl, rfl, fun _ _ => rfl,
    h.fresh, h.below, ?_⟩
  intro p' slot' size b hpool
  unfold VK.setPool at hpool
  dsimp only at hpool
  split at hpool
  · exact hentry size b hpool
  · exact h.pools p' slot' size b hpool

theorem refill_beside (h : Separate bs v) (p : Pool) (slot : Nat) (bytes : UInt64) :
    Beside bs v (v.refill driver p slot bytes).2 := by
  obtain ⟨hbeside, -, hok⟩ := makeBufferEx_beside driver h bytes (p = .devscratch)
  unfold VK.refill
  generalize v.makeBufferEx driver bytes (p = .devscratch) = r at hbeside hok ⊢
  obtain ⟨r, v1⟩ := r
  cases r with
  | error status =>
    apply hbeside.trans
    exact setPool_beside hbeside.separate p slot (by simp)
  | ok b =>
    obtain ⟨hb, hlt, -⟩ := hok b rfl
    apply hbeside.trans
    apply setPool_beside hbeside.separate
    rintro size c ⟨rfl, rfl⟩
    refine ⟨hlt, fun hmem => ?_⟩
    have hbelow := h.below b hmem
    omega

variable (driver) in
theorem acquirePool_beside (h : Separate bs v) (p : Pool) (slot : Nat) (bytes : UInt64) :
    Beside bs v (v.acquirePool driver p slot bytes).2 := by
  unfold VK.acquirePool
  split
  · exact Beside.refl h
  · split
    · exact refill_beside h p slot bytes
    · rename_i size b hpool
      split
      · exact Beside.refl h
      · apply (destroyBuffer_beside h (h.pools p slot size b hpool).2).trans
        exact refill_beside (destroyBuffer_separate h b) p slot bytes

theorem uploadBuffer_beside (h : Separate bs v) {dst : Nat} {status : Status}
    (hupload : v.uploadBuffer driver dst bytes = some (status, v')) : Beside bs v v' := by
  obtain ⟨x, -, hupload⟩ := Option.bind_eq_some_iff.1 hupload
  split at hupload
  · cases hupload
    exact Beside.refl h
  · have hscratch := acquirePool_beside driver h .scratch 900 bytes
    unfold VK.scratchAcquire at hupload
    generalize v.acquirePool driver .scratch 900 bytes = r at hscratch hupload
    obtain ⟨r, v1⟩ := r
    cases r with
    | error status =>
      cases hupload
      exact hscratch
    | ok staging =>
      obtain ⟨y, -, hupload⟩ := Option.bind_eq_some_iff.1 hupload
      split at hupload
      · cases hupload
        apply hscratch.trans
        exact ⟨⟨Nat.le_refl _, fun _ _ hgone => hgone⟩, rfl, rfl, rfl, fun _ _ => rfl,
          hscratch.separate.fresh, hscratch.separate.below, hscratch.separate.pools⟩
      · cases hupload

end Beside

/-- The cache of a device between two calls. -/
structure Kept (v : VK) : Prop where
  stamps : (v.cache.map CacheItem.stamp).Nodup
  clock : ∀ e ∈ v.cache, e.stamp ≤ v.cacheClock
  newest : 0 < v.cacheClock → ∃ e ∈ v.cache, e.stamp = v.cacheClock
  total : v.cacheTotal = (v.cache.map CacheItem.bytes).sum
  bufs : (v.cache.map CacheItem.buf).Nodup
  live : ∀ e ∈ v.cache, (v.buffers.cells e.buf).isSome
  separate : Separate (v.cache.map CacheItem.buf) v

theorem kept_opened (memoryBudget cacheBudget : UInt64) :
    Kept (VK.opened memoryBudget cacheBudget) := by
  constructor <;> simp [VK.opened]
  constructor <;> simp [Memory.empty]

section Evict

variable {v : VK} {bytes soft : UInt64}

/-- What is left when entries were taken out of the cache. -/
structure Evicted (v v' : VK) : Prop where
  kept : Kept v'
  outlives : Outlives v v'
  next : v'.buffers.next = v.buffers.next
  clock : v'.cacheClock = v.cacheClock
  sub : v'.cache.Sublist v.cache
  gone : ∀ e ∈ v.cache, e ∉ v'.cache → v'.buffers.cells e.buf = none

theorem buf_inj (h : (v.cache.map CacheItem.buf).Nodup) {e e' : CacheItem} (he : e ∈ v.cache)
    (he' : e' ∈ v.cache) (heq : e.buf = e'.buf) : e = e' :=
  List.inj_on_of_nodup_map h he he' heq

theorem evictItem_fields (e : CacheItem) : (v.evictItem e).cache = v.cache.erase e ∧
    (v.evictItem e).cacheClock = v.cacheClock ∧
    (v.evictItem e).cacheTotal = v.cacheTotal - e.bytes ∧ (v.evictItem e).pools = v.pools := by
  obtain ⟨hcache, hclock, htotal, hpools⟩ :=
    destroyBuffer_fields (v := { v with cacheTotal := v.cacheTotal - e.bytes }) e.buf
  unfold VK.evictItem
  dsimp only
  rw [hcache]
  exact ⟨rfl, hclock, htotal, hpools⟩

theorem evictItem_next (e : CacheItem) : (v.evictItem e).buffers.next = v.buffers.next :=
  destroyBuffer_next e.buf

theorem evictItem_cells (e : CacheItem) (c : Nat) : (v.evictItem e).buffers.cells c =
    if c = e.buf then none else v.buffers.cells c :=
  destroyBuffer_cells e.buf c

theorem evictItem_kept (h : Kept v) {e : CacheItem} (he : e ∈ v.cache)
    (hold : e.stamp ≠ v.cacheClock) : Kept (v.evictItem e) := by
  obtain ⟨hcache, hclock, htotal, hpools⟩ := evictItem_fields (v := v) e
  have hmem : ∀ y, y ∈ v.cache.erase e ↔ y ≠ e ∧ y ∈ v.cache := fun y =>
    h.stamps.of_map.mem_erase_iff
  have hsub : ((v.cache.erase e).map CacheItem.buf).Sublist (v.cache.map CacheItem.buf) :=
    List.erase_sublist.map CacheItem.buf
  constructor
  · rw [hcache]
    exact h.stamps.sublist (List.erase_sublist.map CacheItem.stamp)
  · rw [hcache, hclock]
    intro y hy
    exact h.clock y ((hmem y).1 hy).2
  · rw [hcache, hclock]
    intro hpos
    obtain ⟨y, hy, hstamp⟩ := h.newest hpos
    refine ⟨y, (hmem y).2 ⟨?_, hy⟩, hstamp⟩
    rintro rfl
    exact hold hstamp
  · have hsum := List.sum_map_erase CacheItem.bytes he
    rw [← h.total] at hsum
    rw [htotal, hcache]
    exact sub_eq_of_eq_add' hsum.symm
  · rw [hcache]
    exact h.bufs.sublist hsub
  · rw [hcache]
    intro y hy
    obtain ⟨hne, hy⟩ := (hmem y).1 hy
    rw [evictItem_cells, if_neg fun heq => hne (buf_inj h.bufs hy he heq)]
    exact h.live y hy
  · constructor
    · intro b hb
      rw [evictItem_next] at hb
      rw [evictItem_cells, h.separate.fresh b hb, ite_self]
    · rw [hcache, evictItem_next]
      intro b hb
      exact h.separate.below b (hsub.subset hb)
    · rw [hcache, hpools, evictItem_next]
      intro p slot size b hpool
      obtain ⟨hlt, hout⟩ := h.separate.pools p slot size b hpool
      exact ⟨hlt, fun hb => hout (hsub.subset hb)⟩

theorem evictItem_evicted (h : Kept v) {e : CacheItem} (he : e ∈ v.cache)
    (hold : e.stamp ≠ v.cacheClock) : Evicted v (v.evictItem e) := by
  obtain ⟨hcache, hclock, -, -⟩ := evictItem_fields (v := v) e
  constructor
  · exact evictItem_kept h he hold
  · constructor
    · rw [evictItem_next]
    · intro b _ hb
      rw [evictItem_cells, hb, ite_self]
  · exact evictItem_next e
  · exact hclock
  · rw [hcache]
    exact List.erase_sublist
  · rw [hcache]
    intro y hy hout
    rw [evictItem_cells, if_pos]
    by_contra hne
    apply hout
    rw [h.stamps.of_map.mem_erase_iff]
    refine ⟨?_, hy⟩
    rintro rfl
    exact hne rfl

theorem Evicted.refl (h : Kept v) : Evicted v v :=
  ⟨h, Outlives.refl v, rfl, rfl, List.Sublist.refl _, fun _ he hout => absurd he hout⟩

theorem Evicted.trans {v' v'' : VK} (hv : Kept v) (h : Evicted v v') (h' : Evicted v' v'') :
    Evicted v v'' := by
  refine ⟨h'.kept, h.outlives.trans h'.outlives, h'.next.trans h.next, h'.clock.trans h.clock,
    h'.sub.trans h.sub, ?_⟩
  intro e he hout
  by_cases hmid : e ∈ v'.cache
  · exact h'.gone e hmid hout
  · apply h'.outlives.gone
    · rw [h.next]
      exact hv.separate.below _ (List.mem_map_of_mem he)
    · exact h.gone e he hmid

variable (bytes soft) in
theorem evictLoop_evicted (n : Nat) (h : Kept v) :
    Evicted v (VK.evictLoop bytes soft n v) ∧ (VK.evictLoop bytes soft n v).cache =
      Lru.evict CacheItem.stamp v.cacheClock
        (fun l => (l.map CacheItem.bytes).sum + bytes ≤ soft) n v.cache := by
  induction n generalizing v with
  | zero => exact ⟨Evicted.refl h, rfl⟩
  | succ n ih =>
    rw [VK.evictLoop, Lru.evict, ← h.total]
    split
    · exact ⟨Evicted.refl h, rfl⟩
    · cases hvictim : Lru.victim CacheItem.stamp v.cacheClock v.cache with
      | none => exact ⟨Evicted.refl h, rfl⟩
      | some e =>
        obtain ⟨he, hold⟩ := Lru.mem_of_victim hvictim
        have hitem := evictItem_evicted h he hold
        obtain ⟨hrest, hcache⟩ := ih hitem.kept
        rw [hitem.clock, (evictItem_fields e).1] at hcache
        exact ⟨hitem.trans h hrest, hcache⟩

end Evict

section Calls

variable {driver : Driver} {v v' : VK} {key tag b : Nat} {bytes : UInt64}

theorem touch_spec {stamp : Nat} {l l' : List CacheItem}
    (h : touch key tag stamp l = some (b, l')) :
    l'.map CacheItem.buf = l.map CacheItem.buf ∧ l'.map CacheItem.bytes = l.map CacheItem.bytes ∧
      ∃ before e after, l = before ++ e :: after ∧ e.buf = b ∧
        l' = before ++ { e with hits := e.hits + 1, stamp := stamp } :: after := by
  induction l generalizing l' with
  | nil => cases h
  | cons e es ih =>
    rw [touch] at h
    split at h
    · cases h
      exact ⟨rfl, rfl, [], e, es, rfl, rfl, rfl⟩
    · obtain ⟨⟨b', es'⟩, htouch, heq⟩ := Option.map_eq_some_iff.1 h
      obtain ⟨rfl, rfl⟩ := Prod.mk.inj heq
      obtain ⟨hbufs, hbytes, before, x, after, hes, hx, hes'⟩ := ih htouch
      refine ⟨?_, ?_, e :: before, x, after, ?_, hx, ?_⟩
      · rw [List.map_cons, List.map_cons, hbufs]
      · rw [List.map_cons, List.map_cons, hbytes]
      · rw [hes, List.cons_append]
      · rw [hes', List.cons_append]

/-- What a hit leaves: one entry of the cache is the newest now. -/
structure Found (v v' : VK) (b : Nat) : Prop where
  kept : Kept v'
  buffers : v'.buffers = v.buffers
  clock : v'.cacheClock = v.cacheClock + 1
  mem : ∃ e ∈ v'.cache, e.buf = b ∧ e.stamp = v.cacheClock + 1
  other : ∀ e, e.buf ≠ b → (e ∈ v'.cache ↔ e ∈ v.cache)
  bufs : v'.cache.map CacheItem.buf = v.cache.map CacheItem.buf

theorem find_found (h : Kept v) (hfind : v.find key tag = some (b, v')) : Found v v' b := by
  obtain ⟨⟨b', l'⟩, htouch, heq⟩ := Option.map_eq_some_iff.1 hfind
  obtain ⟨rfl, rfl⟩ := Prod.mk.inj heq
  obtain ⟨hbufs, hbytes, before, e, after, hcache, hb, hl'⟩ := touch_spec htouch
  dsimp only at hbufs hbytes hl' ⊢
  have hmem : ∀ x ∈ l', x.stamp = v.cacheClock + 1 ∨ x ∈ v.cache := by
    intro x hx
    rw [hl'] at hx
    rw [hcache]
    simp only [List.mem_append, List.mem_cons] at hx ⊢
    rcases hx with hx | rfl | hx
    · exact Or.inr (Or.inl hx)
    · exact Or.inl rfl
    · exact Or.inr (Or.inr (Or.inr hx))
  have hnew : ∃ x ∈ l', x.buf = b' ∧ x.stamp = v.cacheClock + 1 := by
    refine ⟨{ e with hits := e.hits + 1, stamp := v.cacheClock + 1 }, ?_, hb, rfl⟩
    rw [hl']
    simp
  refine ⟨?_, rfl, rfl, hnew, ?_, hbufs⟩
  · constructor
    · have hstamps := h.stamps
      have hclock := h.clock
      rw [hcache] at hstamps hclock
      rw [hl']
      simp only [List.map_append, List.map_cons, List.nodup_middle, List.nodup_cons] at hstamps ⊢
      refine ⟨fun hmem => ?_, hstamps.2⟩
      rw [← List.map_append, List.mem_map] at hmem
      obtain ⟨x, hx, hstamp⟩ := hmem
      have hle := hclock x (by
        rw [List.mem_append, List.mem_cons]
        rcases List.mem_append.1 hx with hx | hx
        · exact Or.inl hx
        · exact Or.inr (Or.inr hx))
      omega
    · intro x hx
      rcases hmem x hx with hstamp | hx
      · exact hstamp.le
      · exact Nat.le_succ_of_le (h.clock x hx)
    · intro _
      obtain ⟨x, hx, -, hstamp⟩ := hnew
      exact ⟨x, hx, hstamp⟩
    · dsimp only
      rw [hbytes]
      exact h.total
    · dsimp only
      rw [hbufs]
      exact h.bufs
    · intro x hx
      have hbuf : x.buf ∈ v.cache.map CacheItem.buf := by
        rw [← hbufs]
        exact List.mem_map_of_mem hx
      obtain ⟨y, hy, heq⟩ := List.mem_map.1 hbuf
      rw [← heq]
      exact h.live y hy
    · dsimp only
      rw [hbufs]
      exact ⟨h.separate.fresh, h.separate.below, h.separate.pools⟩
  · intro x hx
    dsimp only
    rw [hl', hcache]
    simp only [List.mem_append, List.mem_cons]
    have hne : ∀ y : CacheItem, y.buf = b' → x ≠ y := by
      rintro y hy rfl
      exact hx hy
    have hne' := hne { e with hits := e.hits + 1, stamp := v.cacheClock + 1 } hb
    simp only [hne e hb, hne', false_or]

theorem Beside.kept (h : Kept v) (hb : Beside (v.cache.map CacheItem.buf) v v') : Kept v' := by
  constructor
  · rw [hb.cache]
    exact h.stamps
  · rw [hb.cache, hb.clock]
    exact h.clock
  · rw [hb.cache, hb.clock]
    exact h.newest
  · rw [hb.cache, hb.total]
    exact h.total
  · rw [hb.cache]
    exact h.bufs
  · rw [hb.cache]
    intro e he
    rw [hb.same _ (List.mem_map_of_mem he)]
    exact h.live e he
  · rw [hb.cache]
    exact hb.separate

/-- What a miss leaves, after the eviction to `w`. -/
structure Inserted (w v' : VK) (result : Except Status Nat) : Prop where
  kept : Kept v'
  outlives : Outlives w v'
  failed : ∀ status, result = .error status → v'.cache = w.cache ∧ v'.cacheClock = w.cacheClock
  made : ∀ b, result = .ok b → w.buffers.next ≤ b ∧ v'.cacheClock = w.cacheClock + 1 ∧
    ∃ e, e.buf = b ∧ e.stamp = w.cacheClock + 1 ∧ v'.cache = w.cache ++ [e]

theorem push_kept {w : VK} {e : CacheItem} (hbufs : e.buf ∉ w.cache.map CacheItem.buf)
    (hstamp : e.stamp = w.cacheClock + 1) (hlive : (w.buffers.cells e.buf).isSome)
    (hkept : Kept w) (hseparate : Separate (e.buf :: w.cache.map CacheItem.buf) w) :
    Kept { w with
      cache := w.cache ++ [e]
      cacheTotal := w.cacheTotal + e.bytes
      cacheClock := w.cacheClock + 1 } := by
  constructor
  · rw [List.map_append, List.map_singleton, List.nodup_append_comm]
    rw [List.singleton_append, List.nodup_cons]
    refine ⟨fun hmem => ?_, hkept.stamps⟩
    obtain ⟨x, hx, heq⟩ := List.mem_map.1 hmem
    have hle := hkept.clock x hx
    omega
  · intro x hx
    rcases List.mem_append.1 hx with hx | hx
    · exact Nat.le_succ_of_le (hkept.clock x hx)
    · rw [List.mem_singleton] at hx
      rw [hx]
      exact hstamp.le
  · intro _
    exact ⟨e, by simp, hstamp⟩
  · rw [List.map_append, List.sum_append, ← hkept.total]
    simp
  · rw [List.map_append, List.map_singleton, List.nodup_append_comm]
    rw [List.singleton_append, List.nodup_cons]
    exact ⟨hbufs, hkept.bufs⟩
  · intro x hx
    rcases List.mem_append.1 hx with hx | hx
    · exact hkept.live x hx
    · rw [List.mem_singleton] at hx
      rw [hx]
      exact hlive
  · constructor
    · exact hseparate.fresh
    · intro b hb
      apply hseparate.below
      rw [List.map_append, List.mem_append] at hb
      simpa [or_comm] using hb
    · intro p slot size b hpool
      obtain ⟨hlt, hout⟩ := hseparate.pools p slot size b hpool
      refine ⟨hlt, fun hb => hout ?_⟩
      rw [List.map_append, List.mem_append] at hb
      simpa [or_comm] using hb

theorem Separate.cons {bs : List Nat} {w : VK} (h : Separate bs w) {c : Nat}
    (hlt : c < w.buffers.next)
    (hpools : ∀ p slot size b, w.pools p slot = some (size, b) → b ≠ c) :
    Separate (c :: bs) w := by
  constructor
  · exact h.fresh
  · intro b hb
    rcases List.mem_cons.1 hb with rfl | hb
    · exact hlt
    · exact h.below b hb
  · intro p slot size b hpool
    obtain ⟨hb, hout⟩ := h.pools p slot size b hpool
    refine ⟨hb, fun hmem => ?_⟩
    rcases List.mem_cons.1 hmem with heq | hmem
    · exact hpools p slot size b hpool heq
    · exact hout hmem

theorem Beside.tail {bs : List Nat} {w w' : VK} {c : Nat} (h : Beside (c :: bs) w w') :
    Beside bs w w' := by
  refine ⟨h.outlives, h.cache, h.clock, h.total, fun b hb => h.same b (List.mem_cons_of_mem _ hb),
    h.separate.fresh, fun b hb => h.separate.below b (List.mem_cons_of_mem _ hb), ?_⟩
  intro p slot size b hpool
  obtain ⟨hlt, hout⟩ := h.separate.pools p slot size b hpool
  exact ⟨hlt, fun hmem => hout (List.mem_cons_of_mem _ hmem)⟩

theorem insert_inserted {result : Except Status Nat} (h : Kept v)
    (hinsert : v.insert driver key tag bytes = some (result, v')) :
    Inserted (VK.evictLoop bytes v.softLimit v.cache.length v) v' result := by
  obtain ⟨hevicted, -⟩ := evictLoop_evicted bytes v.softLimit v.cache.length h
  unfold VK.insert at hinsert
  dsimp only at hinsert
  generalize VK.evictLoop bytes v.softLimit v.cache.length v = w at hevicted hinsert ⊢
  have hkept := hevicted.kept
  obtain ⟨hmade, hpools, hok⟩ := makeBufferEx_beside driver hkept.separate bytes true
  generalize w.makeBufferEx driver bytes true = r at hmade hpools hok hinsert
  obtain ⟨r, w1⟩ := r
  cases r with
  | error status =>
    cases hinsert
    exact ⟨hmade.kept hkept, hmade.outlives, fun _ _ => ⟨hmade.cache, hmade.clock⟩, by simp⟩
  | ok c =>
    obtain ⟨hc, hlt, hlive⟩ := hok c rfl
    dsimp only at hmade hpools hlt hlive hinsert
    have hout : c ∉ w.cache.map CacheItem.buf := fun hmem => by
      have hbelow := hkept.separate.below c hmem
      omega
    have hseparate : Separate (c :: w.cache.map CacheItem.buf) w1 := by
      apply hmade.separate.cons hlt
      rw [hpools]
      intro p slot size b hpool
      have hbelow := (hkept.separate.pools p slot size b hpool).1
      omega
    obtain ⟨⟨status, w2⟩, hupload, hinsert⟩ := Option.bind_eq_some_iff.1 hinsert
    have hup := uploadBuffer_beside hseparate hupload
    have hall := hmade.trans hup.tail
    split at hinsert
    · cases hinsert
      have hdestroy := destroyBuffer_beside hall.separate hout
      have hend := hall.trans hdestroy
      exact ⟨hend.kept hkept, hend.outlives, fun _ _ => ⟨hend.cache, hend.clock⟩, by simp⟩
    · cases hinsert
      have hlive' : (w2.buffers.cells c).isSome := by
        rw [hup.same c List.mem_cons_self]
        exact hlive
      have hkept2 := hall.kept hkept
      refine ⟨?_, ⟨hall.outlives.next, hall.outlives.gone⟩, by simp, ?_⟩
      · apply push_kept (e := ⟨key, tag, c, bytes, w2.cacheClock + 1, 1⟩) _ rfl hlive' hkept2
        · rw [hall.cache]
          exact hup.separate
        · rw [hall.cache]
          exact hout
      · rintro b ⟨⟩
        dsimp only
        rw [hall.cache, hall.clock]
        exact ⟨hc.ge, rfl, _, rfl, rfl, rfl⟩

end Calls

end VgEngine.Vulkan
