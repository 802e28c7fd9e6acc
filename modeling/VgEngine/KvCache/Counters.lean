import VgEngine.KvCache.Lineage
import Mathlib.Algebra.BigOperators.Intervals
import Mathlib.Algebra.Order.BigOperators.Group.Finset

/-! The byte counters of a store against its pages: evictions and allocations move them together,
and what only passes pages on leaves them. -/
namespace VgEngine.KvCache
open Finset

section Sums

/-- The sum over an array after the gap at `v` is closed. -/
theorem sum_gap {K : Type*} [AddCommMonoid K] (f : Nat → K) {n v : Nat} (hv : v < n) :
    ∑ i ∈ range (n - 1), f (if v ≤ i then i + 1 else i) + f v = ∑ i ∈ range n, f i := by
  obtain ⟨k, rfl⟩ : ∃ k, n = v + (k + 1) := ⟨n - v - 1, by omega⟩
  rw [show v + (k + 1) - 1 = v + k by omega, sum_range_add, sum_range_add, sum_range_succ',
    Nat.add_zero, ← add_assoc]
  congr 2
  · exact sum_congr rfl fun i hi => by rw [if_neg (not_le.2 (mem_range.1 hi))]
  · exact sum_congr rfl fun i _ => by rw [if_pos (Nat.le_add_right v i), Nat.add_assoc]

variable (s : KvStore)

/-- The bytes of the pages there are. -/
def hostSum : Nat := ∑ i ∈ range s.pageCount, (s.cells i).bytes

/-- What a page counts for on the device. -/
def Page.onDevice (x : Page) : Nat := if x.tier = .device then x.bytes else 0

/-- The bytes of the pages of the device tier. -/
def deviceSum : Nat := ∑ i ∈ range s.pageCount, (s.cells i).onDevice

/-- How many pages are referenced. -/
def referenced : Nat := ∑ i ∈ range s.pageCount, if (s.cells i).refs = 0 then 0 else 1

/-- The counters are the sums, and no page is younger than the clock. -/
structure Tallied : Prop where
  host : s.stats.hostBytes = hostSum s
  device : s.stats.deviceBytes = deviceSum s
  small : hostSum s < 2 ^ 64
  uniform : ∀ i < s.pageCount, (s.cells i).bytes = pageBytes s.cfg
  ages : ∀ i < s.pageCount, (s.cells i).age ≤ s.clock

variable {s} {s' : KvStore}

theorem deviceSum_le (s : KvStore) : deviceSum s ≤ hostSum s := by
  refine sum_le_sum fun i _ => ?_
  unfold Page.onDevice
  split
  · exact Nat.le_refl _
  · exact Nat.zero_le _

theorem Tallied.hostSum_eq (h : Tallied s) : hostSum s = s.pageCount * pageBytes s.cfg := by
  unfold hostSum
  rw [sum_const_nat fun i hi => h.uniform i (mem_range.1 hi), card_range]

theorem referenced_le (s : KvStore) : referenced s ≤ s.pageCount := by
  calc referenced s ≤ ∑ i ∈ range s.pageCount, 1 := sum_le_sum fun i _ => by split <;> omega
    _ = s.pageCount := by simp

/-- All pages are referenced when their count says so. -/
theorem referenced_eq_iff : referenced s = s.pageCount ↔ ∀ i < s.pageCount, (s.cells i).refs ≠ 0 := by
  constructor
  · intro hall i hi hzero
    have hlt : referenced s < ∑ i ∈ range s.pageCount, 1 := by
      refine sum_lt_sum (fun j _ => by split <;> omega) ⟨i, mem_range.2 hi, ?_⟩
      rw [if_pos hzero]
      exact Nat.one_pos
    rw [hall] at hlt
    simp at hlt
  · intro hall
    unfold referenced
    rw [sum_congr rfl fun i hi => if_neg (hall i (mem_range.1 hi))]
    simp

/-- The counters cover every page there is. -/
theorem Tallied.covers (h : Tallied s) {i : Nat} (hi : i < s.pageCount) :
    (s.cells i).bytes ≤ s.stats.hostBytes ∧
      ((s.cells i).tier = .device → (s.cells i).bytes ≤ s.stats.deviceBytes) := by
  constructor
  · rw [h.host]
    exact single_le_sum (f := fun i => (s.cells i).bytes) (fun _ _ => Nat.zero_le _)
      (mem_range.2 hi)
  · intro htier
    rw [h.device]
    have hsingle := single_le_sum (f := fun i => (s.cells i).onDevice) (fun _ _ => Nat.zero_le _)
      (mem_range.2 hi)
    rwa [show (s.cells i).onDevice = (s.cells i).bytes from if_pos htier] at hsingle

end Sums

section Evicted

variable {env : Nat → Bool} {w w' : World}

/-- What `spill_page` and `free` leave of the store: only the page at `v` may change. -/
structure Released (s s' : KvStore) (v : Nat) : Prop where
  cfg : s'.cfg = s.cfg
  pageCount : s'.pageCount = s.pageCount
  clock : s'.clock = s.clock
  stats : s'.stats = s.stats
  cells : ∀ i, i ≠ v → s'.cells i = s.cells i

theorem Released.refl (s : KvStore) (v : Nat) : Released s s v :=
  ⟨rfl, rfl, rfl, rfl, fun _ _ => rfl⟩

theorem free_store {block : Option Nat} (hfree : w.free block = some w') : w'.store = w.store := by
  unfold World.free at hfree
  cases block with
  | none => rw [← Option.some.inj hfree]
  | some b =>
    dsimp only at hfree
    split at hfree
    · rw [← Option.some.inj hfree]
    · cases hfree

theorem spillPage_released {v : Nat} (hspill : w.spillPage env v = some w') :
    Released w.store w'.store v := by
  unfold World.spillPage World.ask at hspill
  dsimp only at hspill
  split at hspill
  · obtain rfl := Option.some.inj hspill
    exact Released.refl _ v
  · split at hspill
    · obtain rfl := Option.some.inj hspill
      exact Released.refl _ v
    · split at hspill
      · obtain rfl := Option.some.inj hspill
        exact Released.refl _ v
      · split at hspill
        · obtain rfl := Option.some.inj hspill
          exact Released.refl _ v
        · simp only [Option.bind_eq_bind, Option.bind_eq_some_iff] at hspill
          obtain ⟨contents, -, hfree⟩ := hspill
          have hstore := free_store hfree
          refine ⟨(congrArg KvStore.cfg hstore).trans rfl, (congrArg KvStore.pageCount hstore).trans rfl,
            (congrArg KvStore.clock hstore).trans rfl, (congrArg KvStore.stats hstore).trans rfl,
            fun i hi => ?_⟩
          exact (congrFun (congrArg KvStore.cells hstore) i).trans (if_neg hi)

/-- An eviction takes the page at `v` out of the array and out of the counters. -/
structure Evicted (s s' : KvStore) (v : Nat) : Prop where
  cfg : s'.cfg = s.cfg
  clock : s'.clock = s.clock
  pageCount : s'.pageCount = s.pageCount - 1
  host : s'.stats.hostBytes = sub64 s.stats.hostBytes (s.cells v).bytes
  device : s'.stats.deviceBytes = if (s.cells v).tier = .device then
    sub64 s.stats.deviceBytes (s.cells v).bytes else s.stats.deviceBytes
  cells : ∀ i < s.pageCount - 1, s'.cells i = s.cells (if v ≤ i then i + 1 else i)

theorem Released.evicted {s s' : KvStore} {v : Nat}
    (h : Released (World.uncount s (s.cells v)) s' v) : Evicted s (World.closeGap s' v) v := by
  obtain ⟨hcfg, hcount, hclock, hstats, hcells⟩ := h
  rw [uncount_cfg] at hcfg
  rw [uncount_pageCount] at hcount
  rw [World.uncount] at hclock hstats
  rw [uncount_cells] at hcells
  unfold World.closeGap
  refine ⟨hcfg, hclock, by dsimp only; rw [hcount], by dsimp only; rw [hstats],
    by dsimp only; rw [hstats], fun i hi => ?_⟩
  dsimp only
  rw [hcount]
  by_cases hvi : v ≤ i
  · rw [if_pos ⟨hvi, by omega⟩, if_pos hvi]
    exact hcells (i + 1) (by omega)
  · rw [if_neg fun hc => hvi hc.1, if_neg hvi]
    exact hcells i (by omega)

theorem evictPage_evicted {v : Nat}
    (hevict : w.evictPage env v = some w') : Evicted w.store w'.store v := by
  unfold World.evictPage at hevict
  simp only [Option.bind_eq_bind] at hevict
  split at hevict
  · obtain ⟨w1, hspill, hgap⟩ := Option.bind_eq_some_iff.1 hevict
    exact Option.some.inj hgap ▸ (spillPage_released hspill).evicted
  · obtain ⟨w1, hfree, hgap⟩ := Option.bind_eq_some_iff.1 hevict
    have hreleased : Released (World.uncount w.store (w.store.cells v)) w1.store v := by
      rw [free_store hfree]
      exact Released.refl _ v
    exact Option.some.inj hgap ▸ hreleased.evicted

theorem sum_evicted {K : Type*} [AddCommMonoid K] {s s' : KvStore} {v : Nat}
    (h : Evicted s s' v) (hv : v < s.pageCount) (f : Page → K) :
    ∑ i ∈ range s'.pageCount, f (s'.cells i) + f (s.cells v) =
      ∑ i ∈ range s.pageCount, f (s.cells i) := by
  rw [← sum_gap (fun i => f (s.cells i)) hv, h.pageCount]
  congr 1
  exact sum_congr rfl fun i hi => congrArg f (h.cells i (mem_range.1 hi))

/-- The counters lose exactly what the sums lose. -/
theorem Tallied.evicted {s s' : KvStore} {v : Nat} (hs : Tallied s) (h : Evicted s s' v)
    (hv : v < s.pageCount) : Tallied s' := by
  have hhost : hostSum s' + (s.cells v).bytes = hostSum s := sum_evicted h hv Page.bytes
  have hdevice : deviceSum s' + (s.cells v).onDevice = deviceSum s :=
    sum_evicted h hv Page.onDevice
  have hsmall := hs.small
  have hle := deviceSum_le s
  refine ⟨?_, ?_, by omega, fun i hi => ?_, fun i hi => ?_⟩
  · rw [h.host, hs.host, sub64_of_le (by omega) hsmall]
    omega
  · unfold Page.onDevice at hdevice
    rw [h.device, hs.device]
    split at hdevice
    · rename_i htier
      rw [if_pos htier, sub64_of_le (by omega) (by omega)]
      omega
    · rename_i htier
      rw [if_neg htier]
      omega
  · rw [h.pageCount] at hi
    rw [h.cells i hi, h.cfg]
    exact hs.uniform _ (by split <;> omega)
  · rw [h.pageCount] at hi
    rw [h.cells i hi, h.clock]
    exact hs.ages _ (by split <;> omega)

theorem referenced_evicted {s s' : KvStore} {v : Nat} (h : Evicted s s' v) (hv : v < s.pageCount)
    (hrefs : (s.cells v).refs = 0) : referenced s' = referenced s := by
  have hsum := sum_evicted h hv fun x => if x.refs = 0 then 0 else 1
  rw [if_pos hrefs, Nat.add_zero] at hsum
  exact hsum

theorem victimFrom_none {cells : Nat → Page} {n i age : Nat} {best : Option Nat}
    (h : World.victimFrom cells n i best age = none) :
    best = none ∧ ∀ j, i ≤ j → j < i + n → ¬ ((cells j).refs = 0 ∧ (cells j).age < age) := by
  induction n generalizing i best age with
  | zero => exact ⟨h, fun j hj hlt => by omega⟩
  | succ n ih =>
    unfold World.victimFrom at h
    split at h
    · cases (ih h).1
    · rename_i hnot
      obtain ⟨hbest, hrest⟩ := ih h
      refine ⟨hbest, fun j hj hlt => ?_⟩
      rcases Nat.eq_or_lt_of_le hj with rfl | hj
      · exact hnot
      · exact hrest j hj (by omega)

/-- Without a victim, no page is idle. -/
theorem Tallied.no_idle {s : KvStore} (hs : Tallied s) (hclock : s.clock < 2 ^ 64 - 1)
    (hvictim : World.victim s = none) : ∀ i < s.pageCount, (s.cells i).refs ≠ 0 := by
  intro i hi hrefs
  have hage := hs.ages i hi
  exact (victimFrom_none hvictim).2 i (Nat.zero_le i) (by omega) ⟨hrefs, by omega⟩

/-- What the eviction loop leaves when it may run to its end. -/
structure Trimmed (s s' : KvStore) : Prop where
  tallied : Tallied s'
  cfg : s'.cfg = s.cfg
  clock : s'.clock = s.clock
  referenced : referenced s' = referenced s
  pageCount : s'.pageCount ≤ s.pageCount
  -- nothing was evicted, or the last page that was did not fit
  last : s'.pageCount = s.pageCount ∨
    s.cfg.hostBudgetBytes < (s'.pageCount + 1) * pageBytes s.cfg

theorem evictLoop_trimmed {n : Nat} (hw : Tallied w.store) (hloop : w.evictLoop env n = some w') :
    Trimmed w.store w'.store ∧ (w.store.pageCount ≤ n →
      w'.store.stats.hostBytes ≤ w.store.cfg.hostBudgetBytes ∨ World.victim w'.store = none) := by
  have hself : Trimmed w.store w.store := ⟨hw, rfl, rfl, rfl, Nat.le_refl _, .inl rfl⟩
  induction n generalizing w with
  | zero =>
    obtain rfl := Option.some.inj hloop
    refine ⟨hself, fun hn => .inr ?_⟩
    rw [World.victim, Nat.le_zero.1 hn, World.victimFrom]
  | succ n ih =>
    unfold World.evictLoop at hloop
    split at hloop
    · rename_i hover
      split at hloop
      · rename_i hvictim
        obtain rfl := Option.some.inj hloop
        exact ⟨hself, fun _ => .inr hvictim⟩
      · rename_i v hvictim
        obtain ⟨hv, hrefs⟩ := victim_some hvictim
        obtain ⟨w1, hevict, hrest⟩ := Option.bind_eq_some_iff.1 hloop
        have hevicted := evictPage_evicted hevict
        have hw1 := hw.evicted hevicted hv
        obtain ⟨⟨htallied, hcfg, hclock, hrefd, hcount, hlast⟩, hend⟩ :=
          ih hw1 hrest ⟨hw1, rfl, rfl, rfl, Nat.le_refl _, .inl rfl⟩
        have hfewer := hevicted.pageCount
        refine ⟨⟨htallied, hcfg.trans hevicted.cfg, hclock.trans hevicted.clock,
          hrefd.trans (referenced_evicted hevicted hv hrefs), by omega, .inr ?_⟩, fun hn => ?_⟩
        · rcases hlast with heq | hlast
          · rw [heq, hfewer, Nat.sub_add_cancel (by omega), ← hw.hostSum_eq, ← hw.host]
            exact hover
          · rwa [hevicted.cfg] at hlast
        · have hdone := hend (by omega)
          rwa [hevicted.cfg] at hdone
    · rename_i hover
      obtain rfl := Option.some.inj hloop
      exact ⟨hself, fun _ => .inl (not_lt.1 hover)⟩

theorem evictPages_trimmed (hw : Tallied w.store) (hevict : w.evictPages env = some w') :
    Trimmed w.store w'.store ∧ (w.store.cfg.hostBudgetBytes = 0 ∨
      w'.store.stats.hostBytes ≤ w.store.cfg.hostBudgetBytes ∨ World.victim w'.store = none) := by
  unfold World.evictPages at hevict
  split at hevict
  · rename_i hzero
    obtain rfl := Option.some.inj hevict
    exact ⟨⟨hw, rfl, rfl, rfl, Nat.le_refl _, .inl rfl⟩, .inl hzero⟩
  · obtain ⟨htrimmed, hend⟩ := evictLoop_trimmed hw hevict
    exact ⟨htrimmed, .inr (hend (Nat.le_refl _))⟩

end Evicted

section Opened

variable {env : Nat → Bool} {w w' : World}

/-- The array with one more page, of the host tier and referenced once. -/
structure Pushed (s s' : KvStore) : Prop where
  cfg : s'.cfg = s.cfg
  clock : s'.clock = inc64 s.clock
  pageCount : s'.pageCount = s.pageCount + 1
  host : s'.stats.hostBytes = (s.stats.hostBytes + pageBytes s.cfg) % 2 ^ 64
  device : s'.stats.deviceBytes = s.stats.deviceBytes
  old : ∀ i < s.pageCount, s'.cells i = s.cells i
  bytes : (s'.cells s.pageCount).bytes = pageBytes s.cfg
  refs : (s'.cells s.pageCount).refs = 1
  age : (s'.cells s.pageCount).age = inc64 s.clock
  tier : (s'.cells s.pageCount).tier = .host

theorem sum_pushed {K : Type*} [AddCommMonoid K] {s s' : KvStore} (h : Pushed s s') (f : Page → K) :
    ∑ i ∈ range s'.pageCount, f (s'.cells i) =
      ∑ i ∈ range s.pageCount, f (s.cells i) + f (s'.cells s.pageCount) := by
  rw [h.pageCount, sum_range_succ]
  congr 1
  exact sum_congr rfl fun i hi => congrArg f (h.old i (mem_range.1 hi))

theorem Tallied.pushed {s s' : KvStore} (hs : Tallied s) (h : Pushed s s')
    (hsmall : (s.pageCount + 1) * pageBytes s.cfg < 2 ^ 64) (hclock : s.clock < 2 ^ 64 - 1) :
    Tallied s' := by
  have hhost : hostSum s' = hostSum s + pageBytes s.cfg := (sum_pushed h Page.bytes).trans (by
    rw [h.bytes]
    rfl)
  have hdevice : deviceSum s' = deviceSum s := (sum_pushed h Page.onDevice).trans (by
    rw [Page.onDevice, h.tier, if_neg (by decide), Nat.add_zero]
    rfl)
  have hinc : inc64 s.clock = s.clock + 1 := Nat.mod_eq_of_lt (by omega)
  rw [Nat.succ_mul, ← hs.hostSum_eq] at hsmall
  refine ⟨?_, ?_, by omega, fun i hi => ?_, fun i hi => ?_⟩
  · rw [h.host, hs.host, Nat.mod_eq_of_lt hsmall, hhost]
  · rw [h.device, hs.device, hdevice]
  · rw [h.pageCount] at hi
    rcases Nat.lt_succ_iff_lt_or_eq.1 hi with hi | rfl
    · rw [h.old i hi, h.cfg]
      exact hs.uniform i hi
    · rw [h.bytes, h.cfg]
  · rw [h.pageCount] at hi
    rw [h.clock, hinc]
    rcases Nat.lt_succ_iff_lt_or_eq.1 hi with hi | rfl
    · rw [h.old i hi]
      exact (hs.ages i hi).trans (Nat.le_succ _)
    · rw [h.age, hinc]

/-- The host budget is kept, or nothing is left to evict. -/
def WithinBudget (s : KvStore) : Prop :=
  s.cfg.hostBudgetBytes = 0 ∨ s.stats.hostBytes ≤ s.cfg.hostBudgetBytes ∨
    ∀ i < s.pageCount, (s.cells i).refs ≠ 0

/-- One more page keeps the budget: it fits beside those there are, or those in use alone leave no
room for it. -/
def RoomForPage (s : KvStore) : Prop :=
  s.cfg.hostBudgetBytes = 0 ∨ (s.pageCount + 1) * pageBytes s.cfg ≤ s.cfg.hostBudgetBytes ∨
    s.cfg.hostBudgetBytes < (referenced s + 1) * pageBytes s.cfg

theorem referenced_pushed {s s' : KvStore} (h : Pushed s s') :
    referenced s' = referenced s + 1 := by
  have hsum := sum_pushed h fun x => if x.refs = 0 then 0 else 1
  rw [if_neg (by rw [h.refs]; exact Nat.one_ne_zero)] at hsum
  exact hsum

/-- The page that room was made for is within the budget. -/
theorem RoomForPage.within {s s1 s' : KvStore} (hroom : RoomForPage s)
    (hclock : s.clock < 2 ^ 64 - 1) (htrimmed : Trimmed s s1)
    (hend : s.cfg.hostBudgetBytes = 0 ∨ s1.stats.hostBytes ≤ s.cfg.hostBudgetBytes ∨
      World.victim s1 = none)
    (hsmall : (s1.pageCount + 1) * pageBytes s1.cfg < 2 ^ 64) (hpushed : Pushed s1 s') :
    WithinBudget s' := by
  obtain ⟨hs1, hcfg, hclock1, hrefd, hcount, hlast⟩ := htrimmed
  have hcfg' : s'.cfg = s.cfg := hpushed.cfg.trans hcfg
  have hidle : referenced s1 = s1.pageCount → WithinBudget s' := by
    intro hall
    refine .inr (.inr (referenced_eq_iff.1 ?_))
    rw [referenced_pushed hpushed, hall, hpushed.pageCount]
  rcases hend with hzero | hhost | hvictim
  · exact .inl (hcfg' ▸ hzero)
  · rcases hroom with hzero | hfits | hused
    · exact .inl (hcfg' ▸ hzero)
    · -- where one more page fits, none was evicted
      have hsame : s1.pageCount = s.pageCount := by
        rcases hlast with heq | hlast
        · exact heq
        · by_contra hne
          have hle : (s1.pageCount + 1) * pageBytes s.cfg ≤ (s.pageCount + 1) * pageBytes s.cfg :=
            Nat.mul_le_mul_right _ (by omega)
          omega
      refine .inr (.inl ?_)
      rw [hpushed.host, hs1.host, hs1.hostSum_eq, hcfg', ← Nat.succ_mul, Nat.mod_eq_of_lt hsmall,
        hcfg, hsame]
      exact hfits
    · apply hidle
      rw [hs1.host, hs1.hostSum_eq, hcfg] at hhost
      rw [← hrefd] at hused
      have hlt := Nat.lt_of_mul_lt_mul_right (hhost.trans_lt hused)
      have hle := referenced_le s1
      omega
  · exact hidle (referenced_eq_iff.2 (hs1.no_idle (hclock1 ▸ hclock) hvictim))

theorem pushPage_pushed {s : KvStore} {block : Nat} (hcfg : w.store.cfg = s.cfg)
    (hclock : w.store.clock = s.clock) (hcount : w.store.pageCount = s.pageCount)
    (hstats : w.store.stats = s.stats) (hcells : w.store.cells = s.cells) :
    Pushed s (w.pushPage block .host).2.store := by
  unfold World.pushPage World.withStore
  refine ⟨hcfg, ?_, ?_, ?_, ?_, fun i hi => ?_, ?_, ?_, ?_, ?_⟩ <;> dsimp only
  · rw [hclock]
  · rw [hcount]
  · rw [hstats, hcfg]
  · rw [if_neg (by decide), hstats]
  · rw [hcount, if_neg (by omega), hcells]
  · rw [hcount, if_pos rfl, hcfg]
  · rw [hcount, if_pos rfl]
  · rw [hcount, if_pos rfl, hclock]
  · rw [hcount, if_pos rfl]

/-- A page is opened in what the eviction leaves, or not at all. -/
theorem newPage_cases {slot : Option Slot} (hw : Tallied w.store)
    (hnew : w.newPage env .host = some (slot, w')) :
    ∃ s1, Trimmed w.store s1 ∧ (w.store.cfg.hostBudgetBytes = 0 ∨
        s1.stats.hostBytes ≤ w.store.cfg.hostBudgetBytes ∨ World.victim s1 = none) ∧
      (slot = none ∧ w'.store = s1 ∨ slot.isSome ∧ Pushed s1 w'.store) := by
  unfold World.newPage at hnew
  dsimp only at hnew
  split at hnew
  · rename_i hbytes
    obtain ⟨rfl, rfl⟩ := Prod.mk.inj (Option.some.inj hnew)
    refine ⟨w.store, ⟨hw, rfl, rfl, rfl, Nat.le_refl _, .inl rfl⟩, .inr (.inl ?_), .inl ⟨rfl, rfl⟩⟩
    rw [hw.host, hw.hostSum_eq, hbytes, Nat.mul_zero]
    exact Nat.zero_le _
  · simp only [Option.bind_eq_bind, Option.bind_eq_some_iff] at hnew
    obtain ⟨w1, hevict, hnew⟩ := hnew
    obtain ⟨htrimmed, hend⟩ := evictPages_trimmed hw hevict
    refine ⟨w1.store, htrimmed, hend, ?_⟩
    rw [if_neg fun h => absurd h.1 (by decide)] at hnew
    unfold World.ask at hnew
    dsimp only at hnew
    split at hnew
    · obtain ⟨rfl, rfl⟩ := Prod.mk.inj (Option.some.inj hnew)
      exact .inl ⟨rfl, rfl⟩
    · unfold World.growPages World.ask at hnew
      dsimp only at hnew
      split at hnew
      · split at hnew
        · rw [if_neg Bool.noConfusion] at hnew
          obtain ⟨rfl, rfl⟩ := Prod.mk.inj (Option.some.inj hnew)
          exact .inr ⟨rfl, pushPage_pushed rfl rfl rfl rfl rfl⟩
        · rw [if_pos rfl] at hnew
          obtain ⟨w2, hfree, hpair⟩ := Option.map_eq_some_iff.1 hnew
          obtain ⟨rfl, rfl⟩ := Prod.mk.inj hpair
          exact .inl ⟨rfl, (free_store hfree).trans rfl⟩
      · rw [if_neg Bool.noConfusion] at hnew
        obtain ⟨rfl, rfl⟩ := Prod.mk.inj (Option.some.inj hnew)
        exact .inr ⟨rfl, pushPage_pushed rfl rfl rfl rfl rfl⟩

end Opened

section Kept

variable {env : Nat → Bool} {w w' : World} {h : Nat}

/-- The pages keep their bytes, their tiers and their ages, and the counters stay. -/
structure SamePages (s s' : KvStore) : Prop where
  cfg : s'.cfg = s.cfg
  pageCount : s'.pageCount = s.pageCount
  clock : s'.clock = s.clock
  host : s'.stats.hostBytes = s.stats.hostBytes
  device : s'.stats.deviceBytes = s.stats.deviceBytes
  bytes : ∀ i, (s'.cells i).bytes = (s.cells i).bytes
  tier : ∀ i, (s'.cells i).tier = (s.cells i).tier
  age : ∀ i, (s'.cells i).age = (s.cells i).age

theorem SamePages.refl (s : KvStore) : SamePages s s :=
  ⟨rfl, rfl, rfl, rfl, rfl, fun _ => rfl, fun _ => rfl, fun _ => rfl⟩

theorem SamePages.trans {s s' s'' : KvStore} (h : SamePages s s') (h' : SamePages s' s'') :
    SamePages s s'' :=
  ⟨h'.cfg.trans h.cfg, h'.pageCount.trans h.pageCount, h'.clock.trans h.clock, h'.host.trans h.host,
    h'.device.trans h.device, fun i => (h'.bytes i).trans (h.bytes i),
    fun i => (h'.tier i).trans (h.tier i), fun i => (h'.age i).trans (h.age i)⟩

/-- Only the bytes, the tiers and the ages of the pages matter, and of a tier only whether it is the
device's. -/
theorem Tallied.of_cells {s s' : KvStore} (hs : Tallied s) (hcfg : s'.cfg = s.cfg)
    (hcount : s'.pageCount = s.pageCount) (hhost : s'.stats.hostBytes = s.stats.hostBytes)
    (hdevice : s'.stats.deviceBytes = s.stats.deviceBytes)
    (hbytes : ∀ i < s.pageCount, (s'.cells i).bytes = (s.cells i).bytes)
    (htier : ∀ i < s.pageCount, (s'.cells i).tier = .device ↔ (s.cells i).tier = .device)
    (hages : ∀ i < s.pageCount, (s'.cells i).age ≤ s'.clock) : Tallied s' := by
  have hsum : hostSum s' = hostSum s := by
    unfold hostSum
    rw [hcount]
    exact sum_congr rfl fun i hi => hbytes i (mem_range.1 hi)
  have hsum' : deviceSum s' = deviceSum s := by
    unfold deviceSum Page.onDevice
    rw [hcount]
    refine sum_congr rfl fun i hi => ?_
    rw [hbytes i (mem_range.1 hi)]
    exact if_congr (htier i (mem_range.1 hi)) rfl rfl
  refine ⟨by rw [hhost, hsum, hs.host], by rw [hdevice, hsum', hs.device], hsum ▸ hs.small,
    fun i hi => ?_, fun i hi => hages i (hcount ▸ hi)⟩
  rw [hcount] at hi
  rw [hbytes i hi, hcfg]
  exact hs.uniform i hi

theorem Tallied.same {s s' : KvStore} (hs : Tallied s) (h : SamePages s s') : Tallied s' :=
  hs.of_cells h.cfg h.pageCount h.host h.device (fun i _ => h.bytes i)
    (fun i _ => by rw [h.tier i]) fun i hi => by
      rw [h.age, h.clock]
      exact hs.ages i hi

/-- A cell that only another field of is written. -/
theorem setCell_same {i : Nat} {x : Page} (hbytes : x.bytes = (w.store.cells i).bytes)
    (htier : x.tier = (w.store.cells i).tier) (hage : x.age = (w.store.cells i).age) :
    SamePages w.store (w.setCell i x).store := by
  refine ⟨rfl, rfl, rfl, rfl, rfl, fun j => ?_, fun j => ?_, fun j => ?_⟩ <;>
    unfold World.setCell World.withStore <;> dsimp only <;> split
  · rename_i hj
    rw [hj, hbytes]
  · rfl
  · rename_i hj
    rw [hj, htier]
  · rfl
  · rename_i hj
    rw [hj, hage]
  · rfl

theorem deref_cell {p : PagePtr} {x : Page} (hderef : w.deref p = some x) :
    x = w.store.cells p.index := by
  unfold World.deref at hderef
  split at hderef
  · exact (Option.some.inj hderef).symm
  · cases hderef

theorem retainAll_same {xs : List Slot} (hretain : World.retainAll xs w = some w') :
    SamePages w.store w'.store := by
  induction xs generalizing w with
  | nil => exact Option.some.inj hretain ▸ SamePages.refl _
  | cons x xs ih =>
    obtain ⟨w1, hone, hrest⟩ := Option.bind_eq_some_iff.1 hretain
    obtain ⟨page, hderef, rfl⟩ := Option.map_eq_some_iff.1 hone
    obtain rfl := deref_cell hderef
    have hcell : SamePages w.store (w.setCell x.ptr.index { w.store.cells x.ptr.index with
        refs := ((w.store.cells x.ptr.index).refs + 1) % 2 ^ 32 }).store := setCell_same rfl rfl rfl
    exact hcell.trans (ih hrest)

theorem dropAll_same {xs : List Slot} (hdrop : World.dropAll xs w = some w') :
    SamePages w.store w'.store := by
  induction xs generalizing w with
  | nil => exact Option.some.inj hdrop ▸ SamePages.refl _
  | cons x xs ih =>
    obtain ⟨w1, hone, hrest⟩ := Option.bind_eq_some_iff.1 hdrop
    obtain ⟨page, hderef, rfl⟩ := Option.map_eq_some_iff.1 hone
    obtain rfl := deref_cell hderef
    have hcell : SamePages w.store (w.setCell x.ptr.index { w.store.cells x.ptr.index with
        refs := (w.store.cells x.ptr.index).refs - 1 }).store := setCell_same rfl rfl rfl
    exact hcell.trans (ih hrest)

theorem sequenceClose_same (hclose : w.sequenceClose h = some w') :
    SamePages w.store w'.store := by
  obtain ⟨q, -, hdrop⟩ := Option.bind_eq_some_iff.1 hclose
  have hsame : SamePages (w.setSeq h none).store w'.store := dropAll_same hdrop
  exact hsame

theorem closeAll_same {hs : List Nat} (hclose : World.closeAll hs w = some w') :
    SamePages w.store w'.store := by
  induction hs generalizing w with
  | nil => exact Option.some.inj hclose ▸ SamePages.refl _
  | cons h hs ih =>
    obtain ⟨w1, hone, hrest⟩ := Option.bind_eq_some_iff.1 hclose
    exact (sequenceClose_same hone).trans (ih hrest)

theorem sequenceFork_same {src count : Nat} {result : Except Status Nat}
    (hfork : w.sequenceFork env src count = some (result, w')) : SamePages w.store w'.store := by
  obtain ⟨q, -, hfork⟩ := Option.bind_eq_some_iff.1 hfork
  split at hfork
  · obtain ⟨-, rfl⟩ := Prod.mk.inj (Option.some.inj hfork)
    exact SamePages.refl _
  · unfold World.ask at hfork
    dsimp only at hfork
    split at hfork
    · obtain ⟨-, rfl⟩ := Prod.mk.inj (Option.some.inj hfork)
      exact SamePages.refl _
    · obtain ⟨result', ticks, hreserve⟩ :=
        reserve_ticks env { w with ticks := w.ticks + 1 } count 0 256
      rw [hreserve] at hfork
      cases result' with
      | error status =>
        obtain ⟨-, rfl⟩ := Prod.mk.inj (Option.some.inj hfork)
        exact SamePages.refl _
      | ok cap =>
        dsimp only at hfork
        obtain ⟨result', ticks', hreserve'⟩ :=
          reserve_ticks env { w with ticks := ticks } (World.pagesFor w.store.cfg count) 0 16
        rw [hreserve'] at hfork
        cases result' with
        | error status =>
          obtain ⟨-, rfl⟩ := Prod.mk.inj (Option.some.inj hfork)
          exact SamePages.refl _
        | ok pageCap =>
          dsimp only at hfork
          split at hfork
          · cases hfork
          · obtain ⟨w1, hretain, hadd⟩ := Option.bind_eq_some_iff.1 hfork
            obtain ⟨-, rfl⟩ := Prod.mk.inj (Option.some.inj hadd)
            have hsame : SamePages w.store w1.store := by
              have hretained := retainAll_same hretain
              exact hretained
            exact hsame

theorem radixInsert_same {r seq count fp : Nat} {tainted : Bool} {status : Status}
    (hinsert : w.radixInsert env r seq count fp tainted = some (status, w')) :
    SamePages w.store w'.store := by
  obtain ⟨t, -, hinsert⟩ := Option.bind_eq_some_iff.1 hinsert
  obtain ⟨q, -, hinsert⟩ := Option.bind_eq_some_iff.1 hinsert
  split at hinsert
  · obtain ⟨-, rfl⟩ := Prod.mk.inj (Option.some.inj hinsert)
    exact SamePages.refl _
  · obtain ⟨w1, hclose, hrest⟩ := Option.bind_eq_some_iff.1 hinsert
    have hclosed : SamePages w.store w1.store := by
      have hclosed := closeAll_same hclose
      exact hclosed
    split at hrest
    · obtain ⟨w2, hreplace, hrest⟩ := Option.bind_eq_some_iff.1 hrest
      have hreplaced : SamePages w1.store w2.store := by
        unfold World.closeReplaced at hreplace
        split at hreplace
        · exact Option.some.inj hreplace ▸ SamePages.refl _
        · exact sequenceClose_same hreplace
      obtain ⟨⟨result, w3⟩, hfork, hend⟩ := Option.bind_eq_some_iff.1 hrest
      have hforked := (hclosed.trans hreplaced).trans (sequenceFork_same hfork)
      cases result with
      | error status =>
        obtain ⟨-, rfl⟩ := Prod.mk.inj (Option.some.inj hend)
        exact hforked
      | ok h =>
        obtain ⟨-, rfl⟩ := Prod.mk.inj (Option.some.inj hend)
        exact hforked
    · obtain ⟨-, rfl⟩ := Prod.mk.inj (Option.some.inj hrest)
      exact hclosed

variable (env) in
theorem faultPage_same (w : World) (i : Nat) : SamePages w.store (w.faultPage env i).2.store := by
  unfold World.faultPage World.ask
  dsimp only
  split
  · exact SamePages.refl _
  · split
    · exact SamePages.refl _
    · split
      · exact SamePages.refl _
      · split
        · exact SamePages.refl _
        · split
          · exact setCell_same rfl rfl rfl
          · exact setCell_same rfl rfl rfl

end Kept

end VgEngine.KvCache
