import VgEngine.Lib.Run
import VgEngine.Vulkan.Session

/-! Every live buffer of a session has one holder, and the counter is the sum of the live sizes as
long as no allocation fails once its buffer object is made. -/
namespace VgEngine.Vulkan

/-- How often a buffer is held: by the cache, by `loose`, and by the first `n` slots of the pools. -/
def VK.holders (v : VK) (loose : List Nat) (n b : Nat) : Nat :=
  (v.cache.map CacheItem.buf).count b + loose.count b + slotHolders (v.slotBuffer .scratch) n b +
    slotHolders (v.slotBuffer .devscratch) n b

/-- A live buffer is held once, and a buffer that is gone is not held. -/
structure Owned (v : VK) (loose : List Nat) (n : Nat) : Prop where
  fresh : v.buffers.Fresh
  empty : ∀ p s, n ≤ s → v.pools p s = none
  held : ∀ b, v.holders loose n b = if (v.buffers.cells b).isSome then 1 else 0

/-- The outcome of some work: the ownership always, the sum if the work was clean. -/
structure Carried (clean : Prop) (v v' : VK) (loose : List Nat) (n : Nat) : Prop where
  owned : Owned v' loose n
  accounted : clean → Accounted v → Accounted v'

section Moves

variable {v v' v'' : VK} {loose loose' : List Nat} {n n' b s : Nat} {p : Pool}
  {clean clean' : Prop} {bytes size : UInt64}

theorem owned_opened (memoryBudget cacheBudget : UInt64) :
    Owned (VK.opened memoryBudget cacheBudget) [] 0 := by
  constructor
  · exact fun _ _ => rfl
  · exact fun _ _ _ => rfl
  · exact fun _ => rfl

theorem accounted_opened (memoryBudget cacheBudget : UInt64) :
    Accounted (VK.opened memoryBudget cacheBudget) := rfl

theorem Carried.refl (h : Owned v loose n) : Carried clean v v loose n :=
  ⟨h, fun _ hsum => hsum⟩

theorem Carried.trans (h : Carried clean v v' loose n) (h' : Carried clean' v' v'' loose' n') :
    Carried (clean ∧ clean') v v'' loose' n' :=
  ⟨h'.owned, fun hclean hsum => h'.accounted hclean.2 (h.accounted hclean.1 hsum)⟩

theorem Carried.imp (h : Carried clean v v' loose n) (hclean : clean' → clean) :
    Carried clean' v v' loose n :=
  ⟨h.owned, fun hc => h.accounted (hclean hc)⟩

/-- Where the buffers stay, a buffer may change hands. -/
theorem Owned.move (h : Owned v loose n) (hbuffers : v'.buffers = v.buffers)
    (hempty : ∀ p s, n ≤ s → v'.pools p s = none)
    (hheld : ∀ b, v'.holders loose' n b = v.holders loose n b) : Owned v' loose' n := by
  constructor
  · rw [hbuffers]
    exact h.fresh
  · exact hempty
  · intro b
    rw [hheld, hbuffers]
    exact h.held b

theorem Owned.mono (h : Owned v loose n) (hle : n ≤ n') : Owned v loose n' := by
  have hslots : ∀ p s, n ≤ s → v.slotBuffer p s = none := by
    intro p s hs
    unfold VK.slotBuffer
    rw [h.empty p s hs, Option.map_none]
  constructor
  · exact h.fresh
  · exact fun p s hs => h.empty p s (hle.trans hs)
  · intro b
    rw [← h.held b]
    unfold VK.holders
    rw [slotHolders_mono (hslots .scratch) hle, slotHolders_mono (hslots .devscratch) hle]

theorem slotBuffer_of_pool (hpool : v.pools p s = some (size, b)) : v.slotBuffer p s = some b := by
  unfold VK.slotBuffer
  rw [hpool, Option.map_some]

/-- A held buffer is live, and held once. -/
theorem Owned.live (h : Owned v loose n) (hpos : 0 < v.holders loose n b) :
    (v.buffers.cells b).isSome ∧ v.holders loose n b = 1 := by
  have hheld := h.held b
  split at hheld
  · rename_i hsome
    exact ⟨hsome, hheld⟩
  · omega

theorem setPool_slotBuffer (p p' : Pool) (s s' : Nat) (entry : Option (UInt64 × Nat)) :
    (v.setPool p s entry).slotBuffer p' s' =
      if p' = p ∧ s' = s then entry.map Prod.snd else v.slotBuffer p' s' := by
  unfold VK.slotBuffer VK.setPool
  dsimp only
  split <;> rfl

/-- What a slot holds counts for its buffer, and nothing else changes when it is set. -/
theorem setPool_holders (entry : Option (UInt64 × Nat)) (hs : s < n) :
    (v.setPool p s entry).holders loose n b + (if v.slotBuffer p s = some b then 1 else 0) =
      v.holders loose n b + if entry.map Prod.snd = some b then 1 else 0 := by
  have hself : (v.setPool p s entry).slotBuffer p s = entry.map Prod.snd := by
    rw [setPool_slotBuffer, if_pos ⟨rfl, rfl⟩]
  have hslot : ∀ s', s' ≠ s → (v.setPool p s entry).slotBuffer p s' = v.slotBuffer p s' := by
    intro s' hne
    rw [setPool_slotBuffer, if_neg fun heq => hne heq.2]
  have hpool : ∀ p', p' ≠ p → (v.setPool p s entry).slotBuffer p' = v.slotBuffer p' := by
    intro p' hne
    funext s'
    rw [setPool_slotBuffer, if_neg fun heq => hne heq.1]
  have hupdate : slotHolders ((v.setPool p s entry).slotBuffer p) n b +
        (if v.slotBuffer p s = some b then 1 else 0) = slotHolders (v.slotBuffer p) n b +
        if (v.setPool p s entry).slotBuffer p s = some b then 1 else 0 :=
    slotHolders_update hs hslot
  rw [hself] at hupdate
  unfold VK.holders
  cases p with
  | scratch =>
    rw [hpool .devscratch (by decide)]
    dsimp only [VK.setPool] at hupdate ⊢
    omega
  | devscratch =>
    rw [hpool .scratch (by decide)]
    dsimp only [VK.setPool] at hupdate ⊢
    omega

theorem setPool_empty (h : Owned v loose n) (hs : s < n) (entry : Option (UInt64 × Nat)) :
    ∀ p' s', n ≤ s' → (v.setPool p s entry).pools p' s' = none := by
  intro p' s' hle
  unfold VK.setPool
  dsimp only
  rw [if_neg, h.empty p' s' hle]
  omega

/-- A slot gives up its buffer. -/
theorem Owned.take_slot (h : Owned v loose n) (hs : s < n) (hpool : v.pools p s = some (size, b)) :
    Owned (v.setPool p s none) (b :: loose) n := by
  refine h.move rfl (setPool_empty h hs none) ?_
  intro c
  have hset : (v.setPool p s none).holders loose n c + _ = v.holders loose n c + _ :=
    setPool_holders none hs
  rw [slotBuffer_of_pool hpool] at hset
  unfold VK.holders at hset ⊢
  rw [List.count_cons]
  simp only [Option.map_none, Option.some.injEq, reduceCtorEq, if_false, beq_iff_eq] at hset ⊢
  omega

/-- A slot that holds no buffer gets one. -/
theorem Owned.fill_slot (h : Owned v (b :: loose) n) (hs : s < n) (hpool : v.pools p s = none) :
    Owned (v.setPool p s (some (size, b))) loose n := by
  refine h.move rfl (setPool_empty h hs _) ?_
  intro c
  have hset : (v.setPool p s (some (size, b))).holders loose n c + _ = v.holders loose n c + _ :=
    setPool_holders (some (size, b)) hs
  have hslot : v.slotBuffer p s = none := by
    unfold VK.slotBuffer
    rw [hpool, Option.map_none]
  rw [hslot] at hset
  unfold VK.holders at hset ⊢
  rw [List.count_cons]
  simp only [Option.map_some, Option.some.injEq, reduceCtorEq, if_false, beq_iff_eq] at hset ⊢
  omega

/-- The cache gives up an entry's buffer. -/
theorem Owned.take_item (h : Owned v loose n) {e : CacheItem} (he : e ∈ v.cache) :
    Owned { v with cache := v.cache.erase e } (e.buf :: loose) n := by
  refine h.move rfl h.empty ?_
  intro c
  have hperm := (List.perm_cons_erase he).map CacheItem.buf
  have hcount := hperm.count_eq c
  rw [List.map_cons, List.count_cons] at hcount
  unfold VK.holders VK.slotBuffer
  rw [hcount, List.count_cons]
  dsimp only
  omega

/-- The cache gets a buffer with a new entry. -/
theorem Owned.push_item {e : CacheItem} (h : Owned v (e.buf :: loose) n) :
    Owned { v with cache := v.cache ++ [e] } loose n := by
  refine h.move rfl h.empty ?_
  intro c
  unfold VK.holders VK.slotBuffer
  rw [List.map_append, List.count_append, List.map_singleton, List.count_cons, List.count_cons,
    List.count_nil]
  dsimp only
  omega

end Moves

section Buffers

variable {driver : Driver} {v v' : VK} {loose : List Nat} {n b s : Nat} {p : Pool}
  {bytes : UInt64} {deviceLocal : Bool} {result : Except Status Nat}

/-- Where a buffer goes that is destroyed. -/
theorem destroyBuffer_carried (h : Owned v (b :: loose) n) :
    Carried True v (v.destroyBuffer b) loose n := by
  obtain ⟨hcache, -, -, hpools⟩ := destroyBuffer_fields (v := v) b
  have hholders : ∀ c, v.holders (b :: loose) n c =
      (v.destroyBuffer b).holders loose n c + if b = c then 1 else 0 := by
    intro c
    unfold VK.holders VK.slotBuffer
    rw [hcache, hpools, List.count_cons]
    simp only [beq_iff_eq]
    omega
  have hself := hholders b
  rw [if_pos rfl] at hself
  obtain ⟨hlive, hone⟩ := h.live (b := b) (by omega)
  constructor
  · constructor
    · intro c hc
      rw [destroyBuffer_next] at hc
      rw [destroyBuffer_cells, h.fresh c hc, ite_self]
    · rw [hpools]
      exact h.empty
    · intro c
      have hheld := h.held c
      rw [hholders c] at hheld
      rw [destroyBuffer_cells]
      by_cases hc : c = b
      · subst hc
        rw [if_pos rfl, Option.isSome_none, if_neg Bool.false_ne_true]
        omega
      · rw [if_neg (Ne.symm hc)] at hheld
        rw [if_neg hc]
        exact hheld
  · intro _ hsum
    obtain ⟨x, hx⟩ := Option.isSome_iff_exists.1 hlive
    have hfree : (v.buffers.free b).weigh Buffer.size + x.bytes.toNat =
        v.buffers.weigh Buffer.size := Memory.weigh_free Buffer.size h.fresh hx
    unfold Accounted at hsum ⊢
    unfold VK.destroyBuffer
    rw [hx]
    dsimp only
    have hle : x.bytes ≤ v.memoryAllocated := by
      rw [UInt64.le_iff_toNat_le, hsum]
      omega
    rw [UInt64.toNat_sub_of_le _ _ hle, hsum]
    omega

/-- The buffers in hand after `make_buffer_ex`. -/
def made : Except Status Nat → List Nat → List Nat
  | .ok b, loose => b :: loose
  | .error _, loose => loose

/-- All that `make_buffer_ex` can do. -/
theorem makeBufferEx_cases (driver : Driver) (v : VK) (bytes : UInt64) (deviceLocal : Bool) :
    (∃ status allocated calls, v.makeBufferEx driver bytes deviceLocal =
        (.error status, { v with memoryAllocated := allocated, calls := calls }) ∧
      (v.MakeClean driver bytes deviceLocal → allocated = v.memoryAllocated)) ∨
    (∃ mapped, v.makeBufferEx driver bytes deviceLocal = (.ok v.buffers.next, { v with
        memoryAllocated := v.memoryAllocated + bytes
        buffers := v.buffers.alloc ⟨bytes, mapped⟩
        calls := v.calls + 1 }) ∧
      (mapped = false → driver.allocate v.calls deviceLocal = .device) ∧
      (v.MakeClean driver bytes deviceLocal →
        v.memoryAllocated.toNat + bytes.toNat < 2 ^ 64)) := by
  unfold VK.makeBufferEx VK.MakeClean
  by_cases hzero : bytes = 0
  · exact Or.inl ⟨.invalid, v.memoryAllocated, v.calls, if_pos hzero, fun _ => rfl⟩
  by_cases hbudget : v.memoryBudget < v.memoryAllocated + bytes
  · refine Or.inl ⟨.nomem, v.memoryAllocated, v.calls, ?_, fun _ => rfl⟩
    rw [if_neg hzero, if_pos hbudget]
  rw [if_neg hzero, if_neg hbudget]
  simp only [hzero, hbudget, false_or]
  cases driver.allocate v.calls deviceLocal with
  | refused => exact Or.inl ⟨.nomem, v.memoryAllocated, v.calls + 1, rfl, fun _ => rfl⟩
  | failed status =>
    exact Or.inl ⟨status, v.memoryAllocated - bytes, v.calls + 1, rfl, False.elim⟩
  | host => exact Or.inr ⟨true, rfl, by simp, id⟩
  | device => exact Or.inr ⟨false, rfl, fun _ => rfl, id⟩

theorem makeBufferEx_carried (h : Owned v loose n)
    (hmake : v.makeBufferEx driver bytes deviceLocal = (result, v')) :
    Carried (v.MakeClean driver bytes deviceLocal) v v' (made result loose) n := by
  obtain ⟨status, allocated, calls, heq, hclean⟩ | ⟨mapped, heq, -, hclean⟩ :=
    makeBufferEx_cases driver v bytes deviceLocal
  · rw [heq] at hmake
    cases hmake
    refine ⟨⟨h.fresh, h.empty, h.held⟩, fun hc hsum => ?_⟩
    unfold Accounted at hsum ⊢
    rw [← hsum, ← hclean hc]
  · rw [heq] at hmake
    cases hmake
    have hnext : v.buffers.cells v.buffers.next = none := h.fresh _ (Nat.le_refl _)
    constructor
    · constructor
      · intro c hc
        have hlt : v.buffers.next < c := hc
        exact (Memory.alloc_cells_of_ne (Nat.ne_of_gt hlt)).trans (h.fresh c hlt.le)
      · exact h.empty
      · intro c
        have hheld := h.held c
        unfold VK.holders VK.slotBuffer at hheld ⊢
        dsimp only [made] at hheld ⊢
        rw [List.count_cons]
        by_cases hc : c = v.buffers.next
        · subst hc
          rw [hnext, Option.isSome_none, if_neg Bool.false_ne_true] at hheld
          rw [Memory.alloc_cells_self, Option.isSome_some, if_pos rfl, if_pos (beq_self_eq_true _)]
          omega
        · rw [Memory.alloc_cells_of_ne hc, ← hheld, if_neg]
          · omega
          · rw [beq_iff_eq]
            exact Ne.symm hc
    · intro hc hsum
      have hlt := hclean hc
      unfold Accounted at hsum ⊢
      dsimp only
      rw [Memory.weigh_alloc, UInt64.toNat_add, Nat.mod_eq_of_lt hlt, hsum]
      rfl

theorem setPool_makeBufferEx (driver : Driver) (v : VK) (p : Pool) (s : Nat)
    (entry : Option (UInt64 × Nat)) (bytes : UInt64) (deviceLocal : Bool) :
    (v.setPool p s entry).makeBufferEx driver bytes deviceLocal =
      ((v.makeBufferEx driver bytes deviceLocal).1,
        (v.makeBufferEx driver bytes deviceLocal).2.setPool p s entry) := by
  unfold VK.makeBufferEx
  dsimp only [VK.setPool]
  by_cases hzero : bytes = 0
  · rw [if_pos hzero, if_pos hzero]
  by_cases hbudget : v.memoryBudget < v.memoryAllocated + bytes
  · rw [if_neg hzero, if_neg hzero, if_pos hbudget]
    exact if_pos hbudget
  rw [if_neg hzero, if_neg hzero, if_neg hbudget]
  apply (if_neg hbudget).trans
  cases driver.allocate v.calls deviceLocal <;> rfl

/-- What is written over does not matter. -/
theorem setPool_setPool (v : VK) (p : Pool) (s : Nat) (entry entry' : Option (UInt64 × Nat)) :
    (v.setPool p s entry).setPool p s entry' = v.setPool p s entry' := by
  unfold VK.setPool
  congr 1
  funext p' s'
  dsimp only
  split <;> rfl

/-- A slot that is refilled may be cleared first. -/
theorem setPool_refill (driver : Driver) (v : VK) (p : Pool) (s : Nat)
    (entry : Option (UInt64 × Nat)) (bytes : UInt64) :
    (v.setPool p s entry).refill driver p s bytes = v.refill driver p s bytes := by
  unfold VK.refill
  rw [setPool_makeBufferEx]
  obtain ⟨r, w⟩ := v.makeBufferEx driver bytes (p = .devscratch)
  cases r with
  | ok b => exact congrArg (Prod.mk _) (setPool_setPool w p s entry _)
  | error status => exact congrArg (Prod.mk _) (setPool_setPool w p s entry _)

theorem setPool_destroyBuffer (v : VK) (p : Pool) (s : Nat) (entry : Option (UInt64 × Nat))
    (b : Nat) : (v.setPool p s entry).destroyBuffer b = (v.destroyBuffer b).setPool p s entry := by
  unfold VK.destroyBuffer
  dsimp only [VK.setPool]
  split <;> rfl

theorem refill_carried (h : Owned v loose n) (hs : s < n) (hempty : v.pools p s = none)
    (bytes : UInt64) : Carried (v.MakeClean driver bytes (p = .devscratch)) v
      (v.refill driver p s bytes).2 loose n := by
  have hsame : v.setPool p s none = v := by
    unfold VK.setPool
    congr 1
    funext p' s'
    split
    · rename_i heq
      rw [heq.1, heq.2, hempty]
    · rfl
  have hmake := setPool_makeBufferEx driver v p s none bytes (p = .devscratch)
  rw [hsame] at hmake
  have hcarried := makeBufferEx_carried h hmake
  have hpools : ∀ w : VK, (w.setPool p s none).pools p s = none := fun w => if_pos ⟨rfl, rfl⟩
  unfold VK.refill
  generalize v.makeBufferEx driver bytes (p = .devscratch) = r at hcarried ⊢
  obtain ⟨r, w⟩ := r
  cases r with
  | error status => exact hcarried
  | ok b =>
    have hfill : Owned ((w.setPool p s none).setPool p s (some (bytes, b))) loose n :=
      hcarried.owned.fill_slot hs (hpools w)
    rw [setPool_setPool] at hfill
    exact ⟨hfill, hcarried.accounted⟩

theorem acquirePool_carried (h : Owned v loose n) (hs : s < n) (bytes : UInt64) :
    Carried (v.PoolClean driver p s bytes) v (v.acquirePool driver p s bytes).2 loose n := by
  unfold VK.acquirePool VK.PoolClean
  by_cases hzero : bytes = 0
  · rw [if_pos hzero]
    exact Carried.refl h
  rw [if_neg hzero]
  cases hpool : v.pools p s with
  | none =>
    apply (refill_carried h hs hpool bytes).imp
    exact fun hclean => hclean.resolve_left hzero
  | some entry =>
    obtain ⟨size, b⟩ := entry
    dsimp only
    by_cases hle : bytes ≤ size
    · rw [if_pos hle]
      exact Carried.refl h
    · rw [if_neg hle, ← setPool_refill driver (v.destroyBuffer b) p s none bytes,
        ← setPool_destroyBuffer]
      have htaken := destroyBuffer_carried (h.take_slot hs hpool)
      have hcleared : ((v.setPool p s none).destroyBuffer b).pools p s = none := by
        rw [setPool_destroyBuffer]
        exact if_pos ⟨rfl, rfl⟩
      have hfilled : Carried _ _ (((v.setPool p s none).destroyBuffer b).refill driver p s bytes).2
          loose n := refill_carried htaken.owned hs hcleared bytes
      rw [setPool_destroyBuffer] at htaken hfilled ⊢
      constructor
      · exact hfilled.owned
      · intro hclean hsum
        apply hfilled.accounted
        · exact (hclean.resolve_left hzero).resolve_left hle
        · exact htaken.accounted trivial hsum

end Buffers

section Calls

variable {driver : Driver} {v v' : VK} {loose : List Nat} {n b key tag : Nat}
  {bytes soft : UInt64} {status : Status} {result : Except Status Nat}

theorem evictItem_carried (h : Owned v loose n) {e : CacheItem} (he : e ∈ v.cache) :
    Carried True v (v.evictItem e) loose n := by
  have htotal : Owned { v with cache := v.cache.erase e, cacheTotal := v.cacheTotal - e.bytes }
      (e.buf :: loose) n := by
    have htaken := h.take_item he
    exact ⟨htaken.fresh, htaken.empty, htaken.held⟩
  have hdestroyed := destroyBuffer_carried htotal
  have hsame : v.evictItem e = VK.destroyBuffer
      { v with cache := v.cache.erase e, cacheTotal := v.cacheTotal - e.bytes } e.buf := by
    unfold VK.evictItem VK.destroyBuffer
    dsimp only
    split <;> rfl
  rw [hsame]
  exact ⟨hdestroyed.owned, hdestroyed.accounted⟩

theorem evictLoop_carried (h : Owned v loose n) (rounds : Nat) :
    Carried True v (VK.evictLoop bytes soft rounds v) loose n := by
  induction rounds generalizing v with
  | zero => exact Carried.refl h
  | succ rounds ih =>
    rw [VK.evictLoop]
    split
    · exact Carried.refl h
    · cases hvictim : Lru.victim CacheItem.stamp v.cacheClock v.cache with
      | none => exact Carried.refl h
      | some e =>
        have hitem := evictItem_carried h (Lru.mem_of_victim hvictim).1
        exact (hitem.trans (ih hitem.owned)).imp fun _ => ⟨trivial, trivial⟩

theorem find_carried (h : Owned v loose n) (hfind : v.find key tag = some (b, v')) :
    Carried True v v' loose n := by
  obtain ⟨⟨b', l'⟩, htouch, heq⟩ := Option.map_eq_some_iff.1 hfind
  obtain ⟨rfl, rfl⟩ := Prod.mk.inj heq
  obtain ⟨hbufs, -⟩ := touch_spec htouch
  refine ⟨h.move rfl h.empty ?_, fun _ hsum => hsum⟩
  intro c
  unfold VK.holders VK.slotBuffer
  dsimp only at hbufs ⊢
  rw [hbufs]

theorem cacheGet_carried (h : Owned v loose n) (key tag : Nat) :
    Carried True v (v.cacheGet key tag).2 loose n := by
  unfold VK.cacheGet
  split
  · exact Carried.refl h
  · cases hfind : v.find key tag with
    | none => exact Carried.refl h
    | some r => exact find_carried h hfind

theorem submit_carried (h : Owned v loose n) :
    Carried True v { v with calls := v.calls + 1 } loose n :=
  ⟨⟨h.fresh, h.empty, h.held⟩, fun _ hsum => hsum⟩

/-- Only the copy into a buffer that is not mapped needs a staging buffer. -/
theorem uploadBuffer_carried (h : Owned v loose n) (hn : 900 < n) {x : Buffer}
    (hx : v.buffers.cells b = some x)
    (hupload : v.uploadBuffer driver b bytes = some (status, v')) :
    Carried (x.mapped = false → v.PoolClean driver .scratch 900 bytes) v v' loose n := by
  unfold VK.uploadBuffer at hupload
  rw [hx] at hupload
  dsimp only [Option.bind_eq_bind, Option.bind_some] at hupload
  split at hupload
  · cases hupload
    exact Carried.refl h
  · rename_i hmapped
    have hacquired : Carried (x.mapped = false → v.PoolClean driver .scratch 900 bytes) v
        (v.acquirePool driver .scratch 900 bytes).2 loose n :=
      (acquirePool_carried h hn bytes).imp fun hclean => hclean (Bool.eq_false_iff.2 hmapped)
    unfold VK.scratchAcquire at hupload
    generalize v.acquirePool driver .scratch 900 bytes = r at hacquired hupload
    obtain ⟨r, w⟩ := r
    cases r with
    | error status =>
      cases hupload
      exact hacquired
    | ok staging =>
      obtain ⟨y, -, hupload⟩ := Option.bind_eq_some_iff.1 hupload
      split at hupload
      · cases hupload
        exact (hacquired.trans (submit_carried hacquired.owned)).imp fun hclean => ⟨hclean, trivial⟩
      · cases hupload

theorem insert_carried (h : Owned v loose n) (hn : 900 < n)
    (hinsert : v.insert driver key tag bytes = some (result, v')) :
    Carried (v.InsertClean driver bytes) v v' loose n := by
  have hevicted : Carried True v (VK.evictLoop bytes v.softLimit v.cache.length v) loose n :=
    evictLoop_carried h v.cache.length
  unfold VK.insert at hinsert
  unfold VK.InsertClean
  dsimp only at hinsert ⊢
  generalize VK.evictLoop bytes v.softLimit v.cache.length v = w at hevicted hinsert ⊢
  cases hmake : w.makeBufferEx driver bytes true with
  | mk r w1 =>
    have hmade := makeBufferEx_carried hevicted.owned hmake
    rw [hmake] at hinsert
    cases r with
    | error status =>
      cases hinsert
      exact (hevicted.trans hmade).imp fun hclean => ⟨trivial, hclean.1⟩
    | ok b =>
      obtain ⟨⟨status, w2⟩, hupload, hinsert⟩ := Option.bind_eq_some_iff.1 hinsert
      obtain ⟨x, hx, hdevice⟩ : ∃ x, w1.buffers.cells b = some x ∧
          (x.mapped = false → driver.allocate w.calls true = .device) := by
        obtain ⟨status, allocated, calls, heq, -⟩ | ⟨mapped, heq, hdevice, -⟩ :=
          makeBufferEx_cases driver w bytes true
        · rw [heq] at hmake
          cases hmake
        · rw [heq] at hmake
          cases hmake
          exact ⟨⟨bytes, mapped⟩, Memory.alloc_cells_self _ _, hdevice⟩
      have huploaded := uploadBuffer_carried hmade.owned hn hx hupload
      have hall := ((hevicted.trans hmade).trans huploaded).imp
        fun hclean : w.MakeClean driver bytes true ∧ (driver.allocate w.calls true = .device →
            w1.PoolClean driver .scratch 900 bytes) =>
          ⟨⟨trivial, hclean.1⟩, fun hmapped => hclean.2 (hdevice hmapped)⟩
      split at hinsert
      · cases hinsert
        have hdestroyed := destroyBuffer_carried hall.owned
        exact (hall.trans hdestroyed).imp fun hclean => ⟨hclean, trivial⟩
      · cases hinsert
        have hpushed := hall.owned.push_item (e := ⟨key, tag, b, bytes, w2.cacheClock + 1, 1⟩)
        exact ⟨⟨hpushed.fresh, hpushed.empty, hpushed.held⟩, hall.accounted⟩

theorem cacheAcquire_carried (h : Owned v loose n) (hn : 900 < n) {data : Bool}
    (hacquire : v.cacheAcquire driver key tag data bytes = some (result, v')) :
    Carried ((key = 0 ∨ data = false ∨ bytes = 0) ∨ (v.find key tag).isSome ∨
      v.InsertClean driver bytes) v v' loose n := by
  unfold VK.cacheAcquire at hacquire
  split at hacquire
  · cases hacquire
    exact Carried.refl h
  · rename_i hvalid
    cases hfind : v.find key tag with
    | some r =>
      rw [hfind] at hacquire
      cases hacquire
      exact (find_carried h hfind).imp fun _ => trivial
    | none =>
      rw [hfind] at hacquire
      apply (insert_carried h hn hacquire).imp
      intro hclean
      exact (hclean.resolve_left hvalid).resolve_left (by simp)

theorem bufferUpload_carried (h : Owned v loose n)
    (hupload : v.bufferUpload driver bytes = some (result, v')) :
    Carried (v.MakeClean driver bytes false) v v' (made result loose) n := by
  unfold VK.bufferUpload at hupload
  cases hmake : v.makeBufferEx driver bytes false with
  | mk r w =>
    rw [hmake] at hupload
    have hmade := makeBufferEx_carried h hmake
    cases r with
    | error status =>
      cases hupload
      exact hmade
    | ok b =>
      obtain ⟨x, -, hupload⟩ := Option.bind_eq_some_iff.1 hupload
      split at hupload
      · cases hupload
        exact hmade
      · cases hupload

theorem rmsnorm_carried (h : Owned v loose n) {dim : UInt32} {desc : Status}
    (hnorm : v.rmsnorm driver dim desc = some (status, v')) :
    Carried (dim = 0 ∨ v.MakeClean driver (dim.toUInt64 * 4) false) v v' loose n := by
  unfold VK.rmsnorm at hnorm
  split at hnorm
  · cases hnorm
    exact Carried.refl h
  · rename_i hdim
    cases hmake : v.makeBufferEx driver (dim.toUInt64 * 4) false with
    | mk r w =>
      rw [hmake] at hnorm
      have hmade := (makeBufferEx_carried h hmake).imp
        fun hclean : dim = 0 ∨ v.MakeClean driver (dim.toUInt64 * 4) false =>
          hclean.resolve_left hdim
      cases r with
      | error status =>
        cases hnorm
        exact hmade
      | ok ob =>
        dsimp only at hnorm
        split at hnorm
        · cases hnorm
          have hdestroyed := destroyBuffer_carried hmade.owned
          exact (hmade.trans hdestroyed).imp fun hclean => ⟨hclean, trivial⟩
        · obtain ⟨x, -, hnorm⟩ := Option.bind_eq_some_iff.1 hnorm
          split at hnorm
          · cases hnorm
          · cases hnorm
            have hdestroyed := destroyBuffer_carried (submit_carried hmade.owned).owned
            exact ((hmade.trans (submit_carried hmade.owned)).trans hdestroyed).imp
              fun hclean => ⟨⟨hclean, trivial⟩, trivial⟩

end Calls

section Sessions

variable {driver : Driver} {s s' : Session}

/-- What every call leaves of a session. -/
theorem session_carried (h : Owned s.vk s.uploads s.slots) (op : Op)
    (hstep : s.step driver op = some s') :
    Carried (Clean driver s op) s.vk s'.vk s'.uploads s'.slots := by
  cases op with
  | bufferUpload bytes =>
    obtain ⟨⟨r, w⟩, hupload, rfl⟩ := Option.map_eq_some_iff.1 hstep
    have hcarried := bufferUpload_carried h hupload
    cases r <;> exact hcarried
  | bufferRelease i =>
    unfold Session.step at hstep
    dsimp only at hstep
    cases hb : s.uploads[i]? with
    | none =>
      rw [hb] at hstep
      cases hstep
      exact Carried.refl h
    | some b =>
      rw [hb] at hstep
      cases hstep
      have hperm : s.uploads.Perm (b :: s.uploads.eraseIdx i) := by
        obtain ⟨hi, rfl⟩ := List.getElem?_eq_some_iff.1 hb
        exact (List.getElem_cons_eraseIdx_perm hi).symm
      have hmoved : Owned s.vk (b :: s.uploads.eraseIdx i) s.slots := by
        refine h.move rfl h.empty ?_
        intro c
        unfold VK.holders
        rw [hperm.count_eq]
      exact destroyBuffer_carried hmoved
  | cacheGet key tag =>
    cases hstep
    exact cacheGet_carried h key tag
  | cacheAcquire key tag data bytes =>
    obtain ⟨⟨r, w⟩, hacquire, rfl⟩ := Option.map_eq_some_iff.1 hstep
    have hgrown : Owned s.vk s.uploads (max s.slots 901) := h.mono (Nat.le_max_left _ _)
    exact cacheAcquire_carried hgrown (Nat.le_max_right s.slots 901) hacquire
  | scratchAcquire slot bytes =>
    cases hstep
    have hgrown : Owned s.vk s.uploads (max s.slots (slot + 1)) := h.mono (Nat.le_max_left _ _)
    exact acquirePool_carried hgrown (Nat.le_max_right s.slots (slot + 1)) bytes
  | devScratchAcquire slot bytes =>
    cases hstep
    have hgrown : Owned s.vk s.uploads (max s.slots (slot + 1)) := h.mono (Nat.le_max_left _ _)
    exact acquirePool_carried hgrown (Nat.le_max_right s.slots (slot + 1)) bytes
  | rmsnorm dim desc =>
    obtain ⟨⟨status, w⟩, hnorm, rfl⟩ := Option.map_eq_some_iff.1 hstep
    exact rmsnorm_carried h hnorm

theorem foldl_destroyBuffer (l : List Nat) (v : VK) :
    (l.foldl VK.destroyBuffer v).pools = v.pools ∧
      ∀ c, (l.foldl VK.destroyBuffer v).buffers.cells c =
        if c ∈ l then none else v.buffers.cells c := by
  induction l generalizing v with
  | nil => simp
  | cons b l ih =>
    obtain ⟨-, -, -, hpools⟩ := destroyBuffer_fields (v := v) b
    obtain ⟨ihpools, ihcells⟩ := ih (v.destroyBuffer b)
    rw [List.foldl_cons, ihpools, hpools]
    refine ⟨rfl, fun c => ?_⟩
    rw [ihcells, destroyBuffer_cells]
    by_cases hl : c ∈ l
    · rw [if_pos hl, if_pos (List.mem_cons_of_mem b hl)]
    · rw [if_neg hl]
      simp only [List.mem_cons, hl, or_false]

/-- What `vg_vk_close` destroys. -/
theorem close_cells (v : VK) (slots c : Nat) : (v.close slots).buffers.cells c =
    if c ∈ v.cache.map CacheItem.buf ∨ ∃ slot < slots, v.slotBuffer .scratch slot = some c then none
    else v.buffers.cells c := by
  obtain ⟨hpools, hcells⟩ := foldl_destroyBuffer (v.cache.map CacheItem.buf) v
  unfold VK.close
  dsimp only
  rw [(foldl_destroyBuffer _ _).2]
  unfold VK.slotBuffer
  dsimp only
  rw [hpools, hcells]
  simp only [List.mem_filterMap, List.mem_range]
  split <;> split <;> simp_all

/-- `vg_vk_close` leaves exactly what the device-local scratch and the callers hold. -/
theorem Owned.closes_iff (h : Owned s.vk s.uploads s.slots) : s.ClosesAll ↔ s.Returned := by
  have hkept : ∀ c, 0 < s.uploads.count c + slotHolders (s.vk.slotBuffer .devscratch) s.slots c →
      ¬ s.ClosesAll := by
    intro c hpos hcloses
    have hclosed := hcloses c
    obtain ⟨hlive, hone⟩ := h.live (b := c) (by unfold VK.holders; omega)
    unfold VK.holders at hone
    rw [close_cells, if_neg] at hclosed
    · rw [hclosed] at hlive
      exact Bool.false_ne_true hlive
    · rintro (hmem | ⟨slot, hslot, hscratch⟩)
      · have hcount := List.count_pos_iff.2 hmem
        omega
      · have hcount := slotHolders_pos hslot hscratch
        omega
  constructor
  · intro hcloses
    constructor
    · intro slot
      by_contra hne
      obtain ⟨⟨size, b⟩, hpool⟩ := Option.ne_none_iff_exists'.1 hne
      have hslot : slot < s.slots := by
        by_contra hle
        exact hne (h.empty .devscratch slot (Nat.le_of_not_lt hle))
      have hcount := slotHolders_pos hslot (slotBuffer_of_pool hpool)
      exact hkept b (by omega) hcloses
    · rw [List.eq_nil_iff_forall_not_mem]
      intro b hb
      have hcount := List.count_pos_iff.2 hb
      exact hkept b (by omega) hcloses
  · rintro ⟨hdev, huploads⟩ c
    rw [close_cells]
    split
    · rfl
    · rename_i hout
      push Not at hout
      have hcount : (s.vk.cache.map CacheItem.buf).count c = 0 := List.count_eq_zero.2 hout.1
      have hscratch : slotHolders (s.vk.slotBuffer .scratch) s.slots c = 0 := by
        by_contra hne
        obtain ⟨slot, hslot, hheld⟩ := exists_of_slotHolders_pos (Nat.pos_of_ne_zero hne)
        exact hout.2 slot hslot hheld
      have hdevice : slotHolders (s.vk.slotBuffer .devscratch) s.slots c = 0 := by
        apply slotHolders_eq_zero
        intro slot
        unfold VK.slotBuffer
        rw [hdev, Option.map_none]
        simp
      have hheld := h.held c
      unfold VK.holders at hheld
      rw [hcount, hscratch, hdevice, huploads] at hheld
      split at hheld
      · cases hheld
      · rename_i hgone
        simpa using hgone

theorem always_carried (driver : Driver) (memoryBudget cacheBudget : UInt64) (ops : List Op) :
    Run.Always (Session.step driver) (fun s => Owned s.vk s.uploads s.slots)
      (Session.opened memoryBudget cacheBudget) ops := by
  refine Run.always_of_guarded (G := fun _ _ => True) ?_ ?_ ?_
  · intro s op s' howned _ hstep
    exact (session_carried howned op hstep).owned
  · exact owned_opened memoryBudget cacheBudget
  · exact fun _ _ _ _ _ => trivial

/-- While no allocation fails once its buffer object is made, the counter of a device is the sum of
the sizes of its live buffers. After any run, `vg_vk_close` destroys all of them exactly if no
device-local scratch is in use and every upload was released. -/
theorem accounted_of_clean (driver : Driver) (memoryBudget cacheBudget : UInt64) (ops : List Op) :
    (Run.Guarded (Session.step driver) (Clean driver) (Session.opened memoryBudget cacheBudget) ops →
      Run.Always (Session.step driver) (fun s => Accounted s.vk)
        (Session.opened memoryBudget cacheBudget) ops) ∧
    Run.Always (Session.step driver) (fun s => s.ClosesAll ↔ s.Returned)
      (Session.opened memoryBudget cacheBudget) ops := by
  constructor
  · intro hclean
    have halways : Run.Always (Session.step driver)
        (fun s => Owned s.vk s.uploads s.slots ∧ Accounted s.vk)
        (Session.opened memoryBudget cacheBudget) ops := by
      refine Run.always_of_guarded ?_ ?_ hclean
      · rintro s op s' ⟨howned, hsum⟩ hop hstep
        have hcarried := session_carried howned op hstep
        exact ⟨hcarried.owned, hcarried.accounted hop hsum⟩
      · exact ⟨owned_opened memoryBudget cacheBudget, accounted_opened memoryBudget cacheBudget⟩
    exact halways.imp fun s hs => hs.2
  · exact (always_carried driver memoryBudget cacheBudget ops).imp fun s hs => hs.closes_iff

/-- A device that refuses its second allocation and fails the first upload. -/
def balkyDriver : Driver :=
  ⟨fun call deviceLocal => if call = 1 then .refused else if deviceLocal then .device else .host,
    fun call => if call = 4 then .io else .ok⟩

/-- A cached weight whose upload fails, after a refused scratch buffer. -/
def balkyOps : List Op :=
  [.scratchAcquire 0 64, .devScratchAcquire 3 16, .cacheAcquire 1 0 true 32, .bufferUpload 8,
    .scratchAcquire 0 128, .cacheAcquire 1 0 true 32, .rmsnorm 4 .ok, .bufferRelease 0]

theorem accounted_of_clean_balky :
    Run.Always (Session.step balkyDriver) (fun s => Accounted s.vk)
      (Session.opened (2 ^ 30) 0) balkyOps :=
  (accounted_of_clean balkyDriver (2 ^ 30) 0 balkyOps).1 (Run.guarded_of_check (by decide +kernel))

/-- A device whose memory is exhausted. -/
def fullDriver : Driver := ⟨fun _ _ => .failed .nomem, fun _ => .ok⟩

/-- A failed allocation drives the counter below zero, and device-local scratch outlives the
device. -/
theorem accounting_drifts :
    (¬ ∀ driver memoryBudget cacheBudget ops, Run.Always (Session.step driver)
      (fun s => Accounted s.vk) (Session.opened memoryBudget cacheBudget) ops) ∧
    ¬ ∀ driver memoryBudget cacheBudget ops, Run.Always (Session.step driver)
      Session.ClosesAll (Session.opened memoryBudget cacheBudget) ops := by
  constructor
  · intro h
    have hend : Accounted (VK.scratchAcquire fullDriver (VK.opened 1024 0) 0 4).2 :=
      h fullDriver 1024 0 [.scratchAcquire 0 4] [.scratchAcquire 0 4] _ (List.prefix_refl _) rfl
    exact absurd hend (by decide)
  · intro h
    have hend := h roomyDriver 1024 0 [.devScratchAcquire 0 4] [.devScratchAcquire 0 4] _
      (List.prefix_refl _) rfl
    have hcell := hend 0
    exact absurd hcell (by decide)

end Sessions

end VgEngine.Vulkan
