import VgEngine.Lib.Run
import VgEngine.Vulkan.Kept

/-! Gathering the buffers of one recorded batch: which of them are still live when the
batch is dispatched. -/
namespace VgEngine.Vulkan

section Model

/-- A device in the middle of a gathering, with the cached buffers handed out for it. -/
structure Gathering where
  vk : VK
  batch : List Nat

inductive Call where
  | get (key tag : Nat)
  | acquire (key tag : Nat) (data : Bool) (bytes : UInt64)
  | devScratch (slot : Nat) (bytes : UInt64)

def Gathering.took (g : Gathering) : Except Status Nat × VK → Gathering
  | (.ok b, vk) => ⟨vk, b :: g.batch⟩
  | (.error _, vk) => ⟨vk, g.batch⟩

def Gathering.step (driver : Driver) (g : Gathering) : Call → Option Gathering
  | .get key tag => some (g.took (g.vk.cacheGet key tag))
  | .acquire key tag data bytes => (g.vk.cacheAcquire driver key tag data bytes).map g.took
  | .devScratch slot bytes => some { g with vk := (g.vk.devbufAcquire driver slot bytes).2 }

def BatchLive (g : Gathering) : Prop :=
  ∀ b ∈ g.batch, (g.vk.buffers.cells b).isSome

/-- The cache entries whose buffers were handed out for the batch. -/
def Gathering.gathered (g : Gathering) : List CacheItem :=
  g.vk.cache.filter fun e => e.buf ∈ g.batch

/-- The bytes of the entries that are not older than a stamp. -/
def VK.since (v : VK) (t : Nat) : UInt64 :=
  ((v.cache.filter fun e => t ≤ e.stamp).map CacheItem.bytes).sum

/-- A new entry leaves the batch alone: the batch has one entry at most, or it fits beside
all entries from some entry on that is not younger than the batch. -/
def Gathering.Spared (g : Gathering) (bytes : UInt64) : Prop :=
  g.gathered.length ≤ 1 ∨
    ∃ x ∈ g.vk.cache, (∀ y ∈ g.gathered, x.stamp ≤ y.stamp) ∧
      g.vk.since x.stamp + bytes ≤ g.vk.softLimit

/-- The call makes no new entry, or one that leaves the batch alone. -/
def Spares (g : Gathering) : Call → Prop
  | .acquire key tag data bytes =>
    (key = 0 ∨ data = false ∨ bytes = 0) ∨ (g.vk.find key tag).isSome ∨ g.Spared bytes
  | _ => True

instance (g : Gathering) : Decidable (BatchLive g) :=
  inferInstanceAs (Decidable (∀ b ∈ g.batch, (g.vk.buffers.cells b).isSome))

instance (g : Gathering) (bytes : UInt64) : Decidable (g.Spared bytes) :=
  inferInstanceAs (Decidable (_ ∨ ∃ x ∈ g.vk.cache, _))

instance (g : Gathering) (call : Call) : Decidable (Spares g call) :=
  match call with
  | .acquire key tag data bytes => inferInstanceAs
      (Decidable ((key = 0 ∨ data = false ∨ bytes = 0) ∨ (g.vk.find key tag).isSome ∨ g.Spared bytes))
  | .get _ _ | .devScratch _ _ => inferInstanceAs (Decidable True)

end Model

/-- Between two calls of a gathering that began at the clock `start`, the batch holds the
buffers of the entries stamped since. -/
structure Held (start : Nat) (g : Gathering) : Prop where
  kept : Kept g.vk
  began : start ≤ g.vk.cacheClock
  batch : ∀ b ∈ g.batch, ∃ e ∈ g.vk.cache, e.buf = b
  young : ∀ e ∈ g.vk.cache, e.buf ∈ g.batch ↔ start < e.stamp

variable {driver : Driver} {g g' : Gathering} {start : Nat} {bytes : UInt64}

theorem mem_gathered {e : CacheItem} : e ∈ g.gathered ↔ e ∈ g.vk.cache ∧ e.buf ∈ g.batch := by
  unfold Gathering.gathered
  simp

theorem Held.batchLive (h : Held start g) : BatchLive g := by
  intro b hb
  obtain ⟨e, he, rfl⟩ := h.batch b hb
  exact h.kept.live e he

theorem held_start {v : VK} (h : Kept v) : Held v.cacheClock ⟨v, []⟩ := by
  constructor
  · exact h
  · exact Nat.le_refl _
  · simp
  · intro e he
    have hle := h.clock e he
    simpa using hle

theorem mem_evictLoop {v : VK} (h : Kept v) {e : CacheItem} :
    e ∈ (VK.evictLoop bytes v.softLimit v.cache.length v).cache ↔
      e ∈ v.cache ∧ (e.stamp = v.cacheClock ∨ ∃ t ≤ e.stamp, v.since t + bytes ≤ v.softLimit) := by
  rw [(evictLoop_evicted _ _ _ h).2, Lru.mem_evict h.stamps h.clock (Nat.le_refl _)]
  rfl

/-- The newest entry of all is one of the batch, once there is one. -/
theorem Held.newest (h : Held start g) {e : CacheItem} (he : e ∈ g.gathered) :
    ∃ x ∈ g.gathered, x.stamp = g.vk.cacheClock := by
  obtain ⟨hmem, hbatch⟩ := mem_gathered.1 he
  have hlt := (h.young e hmem).1 hbatch
  have hle := h.kept.clock e hmem
  obtain ⟨x, hx, hstamp⟩ := h.kept.newest (by omega)
  refine ⟨x, mem_gathered.2 ⟨hx, ?_⟩, hstamp⟩
  rw [h.young x hx]
  omega

theorem eq_of_length_le_one {l : List CacheItem} {x y : CacheItem} (h : l.length ≤ 1)
    (hx : x ∈ l) (hy : y ∈ l) : x = y := by
  match l with
  | [z] => rw [List.mem_singleton.1 hx, List.mem_singleton.1 hy]

theorem exists_oldest {l : List CacheItem} {e : CacheItem} (he : e ∈ l) :
    ∃ x ∈ l, ∀ y ∈ l, x.stamp ≤ y.stamp := by
  cases hmin : l.argmin CacheItem.stamp with
  | none =>
    rw [List.argmin_eq_none] at hmin
    rw [hmin] at he
    cases he
  | some x =>
    exact ⟨x, List.argmin_mem hmin, fun y hy => List.le_of_mem_argmin hy hmin⟩

/-- The least bound that keeps the same entries is the stamp of one of them. -/
theorem since_stamp {v : VK} {t : Nat} {e : CacheItem} (he : e ∈ v.cache) (ht : t ≤ e.stamp) :
    ∃ x ∈ v.cache, x.stamp ≤ e.stamp ∧ v.since x.stamp = v.since t := by
  have hmem : e ∈ v.cache.filter fun y => t ≤ y.stamp := by simpa using ⟨he, ht⟩
  obtain ⟨x, hx, hle⟩ := exists_oldest hmem
  obtain ⟨hxcache, hxt⟩ : x ∈ v.cache ∧ t ≤ x.stamp := by simpa using hx
  refine ⟨x, hxcache, hle e hmem, ?_⟩
  unfold VK.since
  congr 2
  apply List.filter_congr
  intro y hy
  by_cases hyt : t ≤ y.stamp
  · have hxy := hle y (by simpa using ⟨hy, hyt⟩)
    simp [hyt, hxy]
  · have hxy : ¬x.stamp ≤ y.stamp := by omega
    simp [hyt, hxy]

theorem Held.spared_iff (h : Held start g) : g.Spared bytes ↔
    ∀ e ∈ g.gathered,
      e ∈ (VK.evictLoop bytes g.vk.softLimit g.vk.cache.length g.vk).cache := by
  simp only [mem_evictLoop h.kept]
  constructor
  · rintro (hone | ⟨x, -, hold, hfits⟩) e he
    · refine ⟨(mem_gathered.1 he).1, Or.inl ?_⟩
      obtain ⟨x, hx, hstamp⟩ := h.newest he
      rw [← hstamp]
      rw [eq_of_length_le_one hone he hx]
    · exact ⟨(mem_gathered.1 he).1, Or.inr ⟨x.stamp, hold e he, hfits⟩⟩
  · intro hstay
    by_cases hone : g.gathered.length ≤ 1
    · exact Or.inl hone
    right
    obtain ⟨y, hy⟩ := List.exists_mem_of_length_pos (show 0 < g.gathered.length by omega)
    obtain ⟨e, he, hold⟩ := exists_oldest hy
    obtain ⟨hcache, hnewest | ⟨t, ht, hfits⟩⟩ := hstay e he
    · -- then the batch has no other entry than the newest
      exfalso
      apply hone
      have hnodup : g.gathered.Nodup := h.kept.stamps.of_map.filter _
      have hsub : g.gathered ⊆ [e] := by
        intro z hz
        have hz' := (mem_gathered.1 hz).1
        have hstamp : z.stamp = e.stamp := by
          have hle := hold z hz
          have hge := h.kept.clock z hz'
          omega
        rw [List.mem_singleton]
        exact List.inj_on_of_nodup_map h.kept.stamps hz' hcache hstamp
      exact (List.subperm_of_subset hnodup hsub).length_le
    · obtain ⟨x, hx, hle, hsince⟩ := since_stamp hcache ht
      refine ⟨x, hx, fun z hz => hle.trans (hold z hz), ?_⟩
      rw [hsince]
      exact hfits

/-- Whatever the call, the cache is kept and what is gone stays gone. -/
theorem step_kept {call : Call} (h : Kept g.vk) (hstep : g.step driver call = some g') :
    Kept g'.vk ∧ Outlives g.vk g'.vk ∧ g.batch ⊆ g'.batch := by
  have htook : ∀ {r : Except Status Nat} {v : VK}, Kept v → Outlives g.vk v →
      Kept (g.took (r, v)).vk ∧ Outlives g.vk (g.took (r, v)).vk ∧
        g.batch ⊆ (g.took (r, v)).batch := by
    intro r v hv hout
    cases r with
    | ok b => exact ⟨hv, hout, List.subset_cons_self _ _⟩
    | error status => exact ⟨hv, hout, List.Subset.refl _⟩
  have hfound : ∀ {key tag b : Nat} {v : VK}, g.vk.find key tag = some (b, v) →
      Kept v ∧ Outlives g.vk v := by
    intro key tag b v hfind
    have hspec := find_found h hfind
    refine ⟨hspec.kept, ?_⟩
    constructor <;> rw [hspec.buffers]
    exact fun _ _ hgone => hgone
  cases call with
  | get key tag =>
    cases hstep
    unfold VK.cacheGet
    split
    · exact htook h (Outlives.refl _)
    · split
      · rename_i b v hfind
        exact htook (hfound hfind).1 (hfound hfind).2
      · exact htook h (Outlives.refl _)
  | acquire key tag data bytes =>
    obtain ⟨⟨r, v⟩, hacquire, rfl⟩ := Option.map_eq_some_iff.1 hstep
    unfold VK.cacheAcquire at hacquire
    split at hacquire
    · cases hacquire
      exact htook h (Outlives.refl _)
    · split at hacquire
      · rename_i b v' hfind
        cases hacquire
        exact htook (hfound hfind).1 (hfound hfind).2
      · have hinserted := insert_inserted h hacquire
        obtain ⟨hevicted, -⟩ :=
          evictLoop_evicted bytes g.vk.softLimit g.vk.cache.length h
        exact htook hinserted.kept (hevicted.outlives.trans hinserted.outlives)
  | devScratch slot bytes =>
    cases hstep
    have hscratch := acquirePool_beside driver h.separate .devscratch slot bytes
    exact ⟨hscratch.kept h, hscratch.outlives, List.Subset.refl _⟩

theorem Held.found (h : Held start g) {v : VK} {b : Nat} (hspec : Found g.vk v b) :
    Held start ⟨v, b :: g.batch⟩ := by
  have hlt : start < g.vk.cacheClock + 1 := Nat.lt_succ_of_le h.began
  obtain ⟨x, hx, hbuf, hstamp⟩ := hspec.mem
  constructor
  · exact hspec.kept
  · rw [hspec.clock]
    exact hlt.le
  · intro c hc
    dsimp only at hc ⊢
    rcases List.mem_cons.1 hc with rfl | hc
    · exact ⟨x, hx, hbuf⟩
    · obtain ⟨e, he, heq⟩ := h.batch c hc
      have hmem : c ∈ v.cache.map CacheItem.buf := by
        rw [hspec.bufs, ← heq]
        exact List.mem_map_of_mem he
      simpa using hmem
  · intro e he
    by_cases heq : e.buf = b
    · obtain rfl : e = x := buf_inj hspec.kept.bufs he hx (heq.trans hbuf.symm)
      simpa [heq, hstamp] using hlt
    · rw [List.mem_cons, or_iff_right heq]
      exact h.young e ((hspec.other e heq).1 he)

theorem Held.beside (h : Held start g) {v : VK}
    (hspec : Beside (g.vk.cache.map CacheItem.buf) g.vk v) : Held start ⟨v, g.batch⟩ := by
  refine ⟨hspec.kept h.kept, ?_, ?_, ?_⟩
  · rw [hspec.clock]
    exact h.began
  · rw [hspec.cache]
    exact h.batch
  · rw [hspec.cache]
    exact h.young

/-- What is left of the batch's entries when all of them survive the eviction. -/
theorem Held.inserted (h : Held start g) (hspared : g.Spared bytes) {v : VK}
    {result : Except Status Nat} (hspec : Inserted
      (VK.evictLoop bytes g.vk.softLimit g.vk.cache.length g.vk) v result) :
    Held start (g.took (result, v)) := by
  obtain ⟨hevicted, -⟩ :=
    evictLoop_evicted bytes g.vk.softLimit g.vk.cache.length h.kept
  have hstay := h.spared_iff.1 hspared
  generalize VK.evictLoop bytes g.vk.softLimit g.vk.cache.length g.vk = w at hevicted hstay hspec
  have hbatch : ∀ b ∈ g.batch, ∃ e ∈ w.cache, e.buf = b := by
    intro b hb
    obtain ⟨e, he, rfl⟩ := h.batch b hb
    exact ⟨e, hstay e (mem_gathered.2 ⟨he, hb⟩), rfl⟩
  have hyoung : ∀ e ∈ w.cache, e.buf ∈ g.batch ↔ start < e.stamp := fun e he =>
    h.young e (hevicted.sub.subset he)
  cases result with
  | error status =>
    obtain ⟨hcache, hclock⟩ := hspec.failed status rfl
    refine ⟨hspec.kept, ?_, ?_, ?_⟩ <;> dsimp only [Gathering.took]
    · rw [hclock, hevicted.clock]
      exact h.began
    · rw [hcache]
      exact hbatch
    · rw [hcache]
      exact hyoung
  | ok b =>
    obtain ⟨hb, hclock, x, hbuf, hstamp, hcache⟩ := hspec.made b rfl
    refine ⟨hspec.kept, ?_, ?_, ?_⟩ <;> dsimp only [Gathering.took]
    · rw [hclock, hevicted.clock]
      exact Nat.le_succ_of_le h.began
    · rw [hcache]
      intro c hc
      rcases List.mem_cons.1 hc with rfl | hc
      · exact ⟨x, by simp, hbuf⟩
      · obtain ⟨e, he, heq⟩ := hbatch c hc
        exact ⟨e, List.mem_append_left _ he, heq⟩
    · rw [hcache]
      intro e he
      rcases List.mem_append.1 he with he | he
      · have hne : e.buf ≠ b := by
          have hbelow := h.kept.separate.below e.buf
            (List.mem_map_of_mem (hevicted.sub.subset he))
          have hnext := hevicted.next
          omega
        rw [List.mem_cons, or_iff_right hne]
        exact hyoung e he
      · rw [List.mem_singleton] at he
        have hbegan := h.began
        have hsame := hevicted.clock
        rw [he, List.mem_cons]
        refine ⟨fun _ => ?_, fun _ => Or.inl hbuf⟩
        omega

theorem Held.step {call : Call} (h : Held start g) (hspares : Spares g call)
    (hstep : g.step driver call = some g') : Held start g' := by
  cases call with
  | get key tag =>
    cases hstep
    unfold VK.cacheGet
    split
    · exact h
    · split
      · rename_i b v hfind
        exact h.found (find_found h.kept hfind)
      · exact h
  | acquire key tag data bytes =>
    obtain ⟨⟨r, v⟩, hacquire, rfl⟩ := Option.map_eq_some_iff.1 hstep
    unfold VK.cacheAcquire at hacquire
    split at hacquire
    · cases hacquire
      exact h
    · rename_i hvalid
      split at hacquire
      · rename_i b v' hfind
        cases hacquire
        exact h.found (find_found h.kept hfind)
      · rename_i hnone
        rcases hspares with hinvalid | hsome | hspared
        · exact absurd hinvalid hvalid
        · rw [hnone] at hsome
          cases hsome
        · exact h.inserted hspared (insert_inserted h.kept hacquire)
  | devScratch slot bytes =>
    cases hstep
    exact h.beside (acquirePool_beside driver h.kept.separate .devscratch slot bytes)

/-- A buffer of the batch is gone. -/
def Lost (g : Gathering) : Prop :=
  ∃ b ∈ g.batch, b < g.vk.buffers.next ∧ g.vk.buffers.cells b = none

theorem Lost.not_batchLive (h : Lost g) : ¬BatchLive g := by
  obtain ⟨b, hb, -, hgone⟩ := h
  intro hlive
  have hcell := hlive b hb
  rw [hgone] at hcell
  cases hcell

theorem Lost.step {call : Call} (h : Lost g) (hkept : Kept g.vk)
    (hstep : g.step driver call = some g') : Lost g' := by
  obtain ⟨b, hb, hlt, hgone⟩ := h
  obtain ⟨-, houtlives, hsub⟩ := step_kept hkept hstep
  exact ⟨b, hsub hb, Nat.lt_of_lt_of_le hlt houtlives.next, houtlives.gone b hlt hgone⟩

theorem Lost.exec {calls : List Call} (h : Lost g) (hkept : Kept g.vk)
    (hexec : Run.exec (Gathering.step driver) g calls = some g') : Lost g' := by
  induction calls generalizing g with
  | nil =>
    cases hexec
    exact h
  | cons call calls ih =>
    obtain ⟨g1, hstep, hexec⟩ := Option.bind_eq_some_iff.1 hexec
    exact ih (h.step hkept hstep) (step_kept hkept hstep).1 hexec

theorem Held.lost {call : Call} (h : Held start g) (hspares : ¬Spares g call)
    (hstep : g.step driver call = some g') : Lost g' := by
  cases call with
  | get key tag => exact absurd trivial hspares
  | devScratch slot bytes => exact absurd trivial hspares
  | acquire key tag data bytes =>
    obtain ⟨⟨r, v⟩, hacquire, rfl⟩ := Option.map_eq_some_iff.1 hstep
    rw [Spares, h.spared_iff] at hspares
    obtain ⟨hvalid, hmiss⟩ := not_or.1 hspares
    obtain ⟨hmiss, hspared⟩ := not_or.1 hmiss
    rw [Option.not_isSome_iff_eq_none] at hmiss
    rw [VK.cacheAcquire, if_neg hvalid, hmiss] at hacquire
    have hspec := insert_inserted h.kept hacquire
    obtain ⟨hevicted, -⟩ :=
      evictLoop_evicted bytes g.vk.softLimit g.vk.cache.length h.kept
    simp only [not_forall] at hspared
    obtain ⟨e, he, hout⟩ := hspared
    obtain ⟨hcache, hbatch⟩ := mem_gathered.1 he
    have hlt := h.kept.separate.below _ (List.mem_map_of_mem hcache)
    have hlt' := Nat.lt_of_lt_of_eq hlt hevicted.next.symm
    have hgone := hspec.outlives.gone _ hlt' (hevicted.gone e hcache hout)
    have hbelow := Nat.lt_of_lt_of_le hlt' hspec.outlives.next
    cases r with
    | ok b => exact ⟨e.buf, List.mem_cons_of_mem _ hbatch, hbelow, hgone⟩
    | error status => exact ⟨e.buf, hbatch, hbelow, hgone⟩

theorem exec_kept {calls : List Call} (h : Kept g.vk)
    (hexec : Run.exec (Gathering.step driver) g calls = some g') : Kept g'.vk := by
  induction calls generalizing g with
  | nil =>
    cases hexec
    exact h
  | cons call calls ih =>
    obtain ⟨g1, hstep, hexec⟩ := Option.bind_eq_some_iff.1 hexec
    exact ih (step_kept h hstep).1 hexec

theorem Held.batchLive_iff {calls : List Call} (h : Held start g)
    (hexec : Run.exec (Gathering.step driver) g calls = some g') :
    BatchLive g' ↔ Run.Guarded (Gathering.step driver) Spares g calls := by
  induction calls generalizing g with
  | nil =>
    cases hexec
    exact ⟨fun _ => Run.guarded_nil, fun _ => h.batchLive⟩
  | cons call calls ih =>
    obtain ⟨g1, hstep, hexec⟩ := Option.bind_eq_some_iff.1 hexec
    rw [Run.guarded_cons hstep]
    by_cases hspares : Spares g call
    · rw [ih (h.step hspares hstep) hexec]
      simp only [hspares, true_and]
    · have hlost := (h.lost hspares hstep).exec (step_kept h.kept hstep).1 hexec
      simp only [hspares, false_and, iff_false]
      exact hlost.not_batchLive

/-- Without wrapping, a batch is spared where its own entries fit beside the new one. -/
theorem Held.spared_of_fits (h : Held start g) {e : CacheItem} (he : e ∈ g.gathered)
    (hfits : (g.gathered.map CacheItem.bytes).sum + bytes ≤ g.vk.softLimit) : g.Spared bytes := by
  obtain ⟨x, hx, hold⟩ := exists_oldest he
  refine Or.inr ⟨x, (mem_gathered.1 hx).1, hold, ?_⟩
  have hsame : g.vk.cache.filter (fun y => x.stamp ≤ y.stamp) = g.gathered := by
    apply List.filter_congr
    intro y hy
    have hyoung := h.young y hy
    have hx' := (h.young x (mem_gathered.1 hx).1).1 (mem_gathered.1 hx).2
    by_cases hbatch : y.buf ∈ g.batch
    · have hle := hold y (mem_gathered.2 ⟨hy, hbatch⟩)
      simp [hbatch, hle]
    · rw [hyoung, not_lt] at hbatch
      have hlt : ¬x.stamp ≤ y.stamp := by omega
      simp [hyoung, hlt, hbatch]
  rw [VK.since, hsame]
  exact hfits

/-- Device memory and host memory both at hand, and every copy done. -/
def roomy : Driver := ⟨fun _ deviceLocal => if deviceLocal then .device else .host, fun _ => .ok⟩

/-- The weights and the scales of two 4096 by 4096 matrices. -/
def twoMatrices : List Call :=
  [.get 1 0, .acquire 1 0 true 16777216, .get 1 1, .acquire 1 1 true 1048576,
    .get 2 0, .acquire 2 0 true 16777216, .get 2 1, .acquire 2 1 true 1048576]

end VgEngine.Vulkan
