import VgEngine.TensorSource.Acquired
import VgEngine.TensorSource.Granted

/-! The budgets of the tensor source over whole runs. The count of device bytes only ever grows,
so it is right until device memory is given back; and evictions make room within the host budget,
whatever the tier. -/
namespace VgEngine.TensorSource
open Gguf Keyed

variable {st : State} {w : World} {leases : List Lease} {need n : Nat} {desired : Tier}

section Property

/-- Every tier is within its budget; a device budget of zero is none. -/
structure WithinBudgets (s : Source) : Prop where
  tiers : ∀ tier, tier ≠ .device → tierBytes tier s.entries ≤ budgetFor s.cfg tier
  device : s.cfg.deviceBudgetBytes ≠ 0 → tierBytes .device s.entries ≤ s.cfg.deviceBudgetBytes

/-- The device byte counter is the bytes of the live device entries and leases. -/
def Counted (w : World) : Prop := w.source.stats.bytesDevice = w.liveDevice

/-- An acquire of a cache entry with no other lease outstanding leaves the tiers within their
budgets, and a device acquire that could be served is refused only when there is no room. -/
structure KeepsBudgets (w : World) (name : List UInt8) (desired : Tier) (o : Outcome)
    (r : Except Status Lease × State) : Prop where
  within : w.leases = [] → ∀ l, r.1 = .ok l → l.ticket ≠ 0 → WithinBudgets r.2.source
  refused : desired = .device → o.reallocOk = true → ∀ tensor t,
    findTensor w.source.file.index name = some (tensor, t) → o.reads w.source.file t = true →
    ∀ status, r.1 = .error status → w.source.cfg.deviceBudgetBytes ≠ 0 ∧
      w.source.cfg.deviceBudgetBytes < w.liveDevice + t.nbytes

def Budgeted (w : World) : Call → Prop
  | .acquire name desired o => KeepsBudgets w name desired o (acquire w.toState name desired o)
  | .release _ => True

end Property

section Guard

/-- What the evictions for a tensor leave of the pinned tier fits its budget with the tensor, and so
does what they leave of the other tiers where an entry is pinned. -/
def TiersFit (s : Source) (desired : Tier) (n : Nat) : Prop :=
  ∀ tier : Tier, tier ≠ .device → (tier = .pinned ∨ ∃ e ∈ s.entries, e.refs ≠ 0) →
    tierBytes tier (s.spared n) + (if desired = tier then n else 0) ≤ budgetFor s.cfg tier

/-- The evictions for a tensor that is to be cached give back no device memory, and with no lease
outstanding what they leave fits. An entry may then still be pinned: a release does not always find
its entry. -/
structure CachesWithin (w : World) (desired : Tier) (n : Nat) (reallocOk : Bool) : Prop where
  clock : w.source.clock < 2 ^ 64 - 1
  small : totalBytes w.source.entries + n < 2 ^ 64
  device : ∀ e ∈ w.source.entries, e.tier = .device → e.bytes ≠ 0 → SparedFor w.source n e
  tiers : w.leases = [] →
    (reallocOk = true ∨ (w.source.spared n).length ≠ w.source.capacity) → TiersFit w.source desired n

/-- A call that keeps the budgets and the count. A hit with no lease outstanding must find the
tiers within their budgets; a tensor that is read must be cached within them; and no device memory
may be given back: neither by an eviction nor by the release of a transient lease. -/
def Frugal (w : World) : Call → Prop
  | .acquire name desired o => ∀ p ∈ findTensor w.source.file.index name,
    if (findEntry w.source.entries p.1 desired).isSome then
      w.source.clock < 2 ^ 64 - 1 ∧ (w.leases = [] → ∀ tier, tier ≠ .device →
        tierBytes tier w.source.entries ≤ budgetFor w.source.cfg tier)
    else
      ¬ (desired = .storage ∧ w.source.cfg.useMmap = true) → o.reads w.source.file p.2 = true →
      ¬ (desired = .device ∧ Refuses w.source p.2.nbytes) →
      (desired = .device → w.source.stats.bytesDevice + p.2.nbytes < 2 ^ 64) ∧
      (budgetFor w.source.cfg desired ≠ 0 ∧ p.2.nbytes ≤ budgetFor w.source.cfg desired →
        CachesWithin w desired p.2.nbytes o.reallocOk)
  | .release i => ∀ l ∈ w.leases[i]?, l.deviceBytes = 0

instance {p : Tier → Prop} [DecidablePred p] : Decidable (∀ tier, p tier) :=
  decidable_of_iff (p .storage ∧ p .host ∧ p .pinned ∧ p .device)
    ⟨fun h tier => by cases tier <;> simp only [h], fun h => ⟨h _, h _, h _, h _⟩⟩

instance (s : Source) (desired : Tier) (n : Nat) : Decidable (TiersFit s desired n) :=
  inferInstanceAs (Decidable (∀ tier : Tier, tier ≠ .device →
    (tier = .pinned ∨ ∃ e ∈ s.entries, e.refs ≠ 0) →
    tierBytes tier (s.spared n) + (if desired = tier then n else 0) ≤ budgetFor s.cfg tier))

instance (w : World) (desired : Tier) (n : Nat) (reallocOk : Bool) :
    Decidable (CachesWithin w desired n reallocOk) :=
  decidable_of_iff (w.source.clock < 2 ^ 64 - 1 ∧ totalBytes w.source.entries + n < 2 ^ 64 ∧
      (∀ e ∈ w.source.entries, e.tier = .device → e.bytes ≠ 0 → SparedFor w.source n e) ∧
      (w.leases = [] →
        (reallocOk = true ∨ (w.source.spared n).length ≠ w.source.capacity) →
        TiersFit w.source desired n))
    ⟨fun h => ⟨h.1, h.2.1, h.2.2.1, h.2.2.2⟩, fun h => ⟨h.clock, h.small, h.device, h.tiers⟩⟩

instance (w : World) : (c : Call) → Decidable (Frugal w c)
  | .acquire name desired o => inferInstanceAs (Decidable
    (∀ p ∈ findTensor w.source.file.index name,
      if (findEntry w.source.entries p.1 desired).isSome then
        w.source.clock < 2 ^ 64 - 1 ∧ (w.leases = [] → ∀ tier, tier ≠ .device →
          tierBytes tier w.source.entries ≤ budgetFor w.source.cfg tier)
      else
        ¬ (desired = .storage ∧ w.source.cfg.useMmap = true) → o.reads w.source.file p.2 = true →
        ¬ (desired = .device ∧ Refuses w.source p.2.nbytes) →
        (desired = .device → w.source.stats.bytesDevice + p.2.nbytes < 2 ^ 64) ∧
        (budgetFor w.source.cfg desired ≠ 0 ∧ p.2.nbytes ≤ budgetFor w.source.cfg desired →
          CachesWithin w desired p.2.nbytes o.reallocOk)))
  | .release i => inferInstanceAs (Decidable (∀ l ∈ w.leases[i]?, l.deviceBytes = 0))

end Guard

section Invariant

/-- The entries are owned, their stamps are distinct and past, and without a host budget only the
pinned tier is cached. -/
structure Ordered (s : Source) : Prop where
  owns : ∀ e ∈ s.entries, e.owns = true
  ages : (s.entries.map CacheEntry.age).Nodup
  past : ∀ e ∈ s.entries, e.age ≤ s.clock
  small : totalBytes s.entries < 2 ^ 64
  length : s.entries.length ≤ s.nextTicket
  tickets : s.nextTicket ≤ s.clock
  unbudgeted : s.cfg.hostBudgetBytes = 0 → ∀ e ∈ s.entries, e.tier = .pinned

structure Balanced (w : World) : Prop where
  ordered : Ordered w.source
  counted : Counted w
  within : w.source.cfg.deviceBudgetBytes ≠ 0 →
    w.source.stats.bytesDevice ≤ w.source.cfg.deviceBudgetBytes

theorem balanced_opened (file : Handle) (cfg : Option Config) : Balanced (World.opened file cfg) where
  ordered := ⟨by simp [World.opened, Source.opened], List.nodup_nil, by
    simp [World.opened, Source.opened], by simp [World.opened, Source.opened, totalBytes], le_refl _, le_refl _, by
    simp [World.opened, Source.opened]⟩
  counted := rfl
  within := fun _ => Nat.zero_le _

theorem Ordered.of_same {s s' : Source} (h : Ordered s) (same : SameCache s s') : Ordered s' where
  owns := by rw [same.entries]; exact h.owns
  ages := by rw [same.entries]; exact h.ages
  past := by rw [same.entries, same.clock]; exact h.past
  small := by rw [same.entries]; exact h.small
  length := by rw [same.entries, same.nextTicket]; exact h.length
  tickets := by rw [same.nextTicket, same.clock]; exact h.tickets
  unbudgeted := by rw [same.cfg, same.entries]; exact h.unbudgeted

theorem Ordered.sublist {s : Source} (h : Ordered s) {left : List CacheEntry}
    (hleft : left.Sublist s.entries) : Ordered { s with entries := left } where
  owns := fun e he => h.owns e (hleft.mem he)
  ages := h.ages.sublist (hleft.map _)
  past := fun e he => h.past e (hleft.mem he)
  small := Nat.lt_of_le_of_lt (totalBytes_sublist hleft) h.small
  length := hleft.length_le.trans h.length
  tickets := h.tickets
  unbudgeted := fun hzero e he => h.unbudgeted hzero e (hleft.mem he)

theorem inc64_of_lt {k : Nat} (h : k < 2 ^ 64 - 1) : inc64 k = k + 1 := by
  unfold inc64
  exact Nat.mod_eq_of_lt (by omega)

/-- A touched entry has the newest stamp. -/
theorem Ordered.touch {s : Source} (h : Ordered s) {i : Nat} {e : CacheEntry}
    (he : s.entries[i]? = some e) (hclock : s.clock < 2 ^ 64 - 1) :
    Ordered { s with
      entries := s.entries.modify i fun x => { x with refs := inc64 x.refs, age := inc64 s.clock }
      clock := inc64 s.clock } := by
  have hnext := inc64_of_lt hclock
  refine ⟨?_, ?_, ?_, ?_, ?_, ?_, ?_⟩
  · intro x hx
    obtain ⟨y, hy, heq | heq⟩ := mem_modify hx <;> rw [heq] <;> exact h.owns y hy
  · apply nodup_modify h.ages he
    intro y hy
    have hpast := h.past y hy
    dsimp only
    omega
  · intro x hx
    dsimp only
    obtain ⟨y, hy, rfl | rfl⟩ := mem_modify hx
    · have hpast := h.past x hy
      omega
    · exact le_refl _
  · have hbytes : totalBytes (s.entries.modify i fun x =>
        { x with refs := inc64 x.refs, age := inc64 s.clock }) = totalBytes s.entries := by
      unfold totalBytes
      rw [map_modify]
      exact fun _ => rfl
    exact hbytes ▸ h.small
  · rw [List.length_modify]
    exact h.length
  · have htickets := h.tickets
    dsimp only
    omega
  · intro hzero x hx
    obtain ⟨y, hy, heq | heq⟩ := mem_modify hx <;> rw [heq] <;> exact h.unbudgeted hzero y hy

theorem Ordered.drop {s : Source} (h : Ordered s) (i : Nat) :
    Ordered { s with entries := s.entries.modify i fun x => { x with refs := x.refs - 1 } } := by
  refine ⟨?_, ?_, ?_, ?_, ?_, h.tickets, ?_⟩
  · intro x hx
    obtain ⟨y, hy, heq | heq⟩ := mem_modify hx <;> rw [heq] <;> exact h.owns y hy
  · dsimp only
    rw [map_modify]
    · exact h.ages
    · exact fun _ => rfl
  · intro x hx
    obtain ⟨y, hy, heq | heq⟩ := mem_modify hx <;> rw [heq] <;> exact h.past y hy
  · unfold totalBytes
    dsimp only
    rw [map_modify]
    · exact h.small
    · exact fun _ => rfl
  · rw [List.length_modify]
    exact h.length
  · intro hzero x hx
    obtain ⟨y, hy, heq | heq⟩ := mem_modify hx <;> rw [heq] <;> exact h.unbudgeted hzero y hy

/-- A new entry has the newest stamp and the next ticket. -/
theorem Ordered.cached {s s' : Source} (h : Ordered s) {tensor block : Nat}
    (hcached : Cached s tensor block n desired s') (hclock : s.clock < 2 ^ 64 - 1)
    (hsmall : totalBytes s.entries + n < 2 ^ 64) (hbudget : budgetFor s.cfg desired ≠ 0) :
    Ordered s' := by
  have hleft : Ordered { s with entries := s.spared n } := h.sublist List.filter_sublist
  have hnext := inc64_of_lt hclock
  have htickets := h.tickets
  have hticket : inc64 s.nextTicket = s.nextTicket + 1 := inc64_of_lt (by omega)
  have hcases : ∀ (P : CacheEntry → Prop), (∀ x ∈ s.spared n, P x) →
      P ⟨tensor, block, n, 1, inc64 s.clock, inc64 s.nextTicket, desired, true⟩ →
      ∀ x ∈ s'.entries, P x := by
    intro P hP hnew x hx
    rw [hcached.entries] at hx
    rcases List.mem_append.1 hx with hx | hx
    · exact hP x hx
    · rw [List.mem_singleton.1 hx]
      exact hnew
  refine ⟨hcases _ hleft.owns rfl, ?_, hcases _ ?_ ?_, ?_, ?_, ?_, ?_⟩
  · rw [hcached.entries, List.map_append, List.nodup_append]
    refine ⟨hleft.ages, by simp, ?_⟩
    intro a ha b hb
    obtain ⟨x, hx, rfl⟩ := List.mem_map.1 ha
    obtain rfl : b = inc64 s.clock := by simpa using hb
    have hpast := hleft.past x hx
    dsimp only at hpast
    omega
  · intro x hx
    have hpast := hleft.past x hx
    dsimp only at hpast
    rw [hcached.clock]
    omega
  · rw [hcached.clock]
  · have hle : totalBytes (s.spared n) ≤ totalBytes s.entries := totalBytes_sublist List.filter_sublist
    rw [hcached.entries]
    unfold totalBytes at hle hsmall ⊢
    rw [List.map_append, List.sum_append, List.map_singleton, List.sum_singleton]
    dsimp only
    omega
  · have hlength := hleft.length
    dsimp only at hlength
    rw [hcached.entries, hcached.nextTicket, List.length_append, List.length_singleton]
    omega
  · rw [hcached.nextTicket, hcached.clock]
    omega
  · intro hzero
    rw [hcached.cfg] at hzero
    refine hcases _ (hleft.unbudgeted hzero) ?_
    by_contra htier
    unfold budgetFor at hbudget
    rw [if_neg htier] at hbudget
    exact hbudget hzero

end Invariant

section Steps

variable {name : List UInt8} {o : Outcome}

/-- The world after an acquire that ended in `r`. -/
def World.acquired (w : World) (r : Except Status Lease × State) : World :=
  match r.1 with
  | .ok l => ⟨r.2, w.leases ++ [l]⟩
  | .error _ => ⟨r.2, w.leases⟩

/-- The world stays balanced when the count grows with the live bytes, and no budget was passed. -/
theorem Balanced.grown {w' : World} (h : Balanced w) (hordered : Ordered w'.source)
    (hcfg : w'.source.cfg = w.source.cfg)
    (hbytes : w'.source.stats.bytesDevice = if desired = .device then
      (w.source.stats.bytesDevice + n) % 2 ^ 64 else w.source.stats.bytesDevice)
    (hlive : w'.liveDevice = w.liveDevice + if desired = .device then n else 0)
    (hfits : desired = .device → w.source.stats.bytesDevice + n < 2 ^ 64)
    (hgranted : ¬ (desired = .device ∧ Refuses w.source n)) : Balanced w' := by
  have hcounted : w.source.stats.bytesDevice = w.liveDevice := h.counted
  refine ⟨hordered, ?_, ?_⟩
  · unfold Counted
    rw [hbytes, hlive, ← hcounted]
    split
    · rename_i hdevice
      exact Nat.mod_eq_of_lt (hfits hdevice)
    · rfl
  · rw [hcfg, hbytes]
    intro hbudget
    split
    · rename_i hdevice
      by_contra hover
      exact hgranted ⟨hdevice, hbudget, Nat.not_le.1 hover⟩
    · exact h.within hbudget

theorem Balanced.kept {w' : World} (h : Balanced w) (hordered : Ordered w'.source)
    (hcfg : w'.source.cfg = w.source.cfg)
    (hbytes : w'.source.stats.bytesDevice = w.source.stats.bytesDevice)
    (hlive : w'.liveDevice = w.liveDevice) : Balanced w' := by
  refine ⟨hordered, ?_, ?_⟩
  · unfold Counted
    rw [hbytes, hlive]
    exact h.counted
  · rw [hcfg, hbytes]
    exact h.within

theorem liveDevice_append (st : State) (leases : List Lease) (l : Lease) :
    World.liveDevice ⟨st, leases ++ [l]⟩ = World.liveDevice ⟨st, leases⟩ + l.deviceBytes := by
  unfold World.liveDevice
  rw [List.map_append, List.sum_append, List.map_singleton, List.sum_singleton, Nat.add_assoc]

theorem Balanced.device (h : Balanced w) (hbudget : w.source.cfg.deviceBudgetBytes ≠ 0) :
    tierBytes .device w.source.entries ≤ w.source.cfg.deviceBudgetBytes := by
  have hwithin := h.within hbudget
  have hcounted : w.source.stats.bytesDevice = w.liveDevice := h.counted
  unfold World.liveDevice at hcounted
  omega

theorem Balanced.aside (h : Balanced w) {r : Except Status Lease × State}
    (same : SameCache w.source r.2.source)
    (mapped : ∀ l, r.1 = .ok l → l.mapped = true ∧ l.ticket = 0)
    (full : ∀ status, r.1 = .error status → desired = .device → ∀ tensor t,
      findTensor w.source.file.index name = some (tensor, t) →
      o.reads w.source.file t = true → Refuses w.source t.nbytes) :
    Balanced (w.acquired r) ∧ KeepsBudgets w name desired o r := by
  have hordered := h.ordered.of_same same
  have hlive : World.liveDevice ⟨r.2, w.leases⟩ = w.liveDevice := by
    unfold World.liveDevice
    rw [same.entries]
  refine ⟨?_, ?_, ?_⟩
  · unfold World.acquired
    cases hr : r.1 with
    | error status => exact h.kept hordered same.cfg same.bytesDevice hlive
    | ok l =>
      refine h.kept hordered same.cfg same.bytesDevice ?_
      rw [liveDevice_append, hlive, Lease.deviceBytes, if_neg fun hl => by
        rw [(mapped l hr).1] at hl
        exact Bool.noConfusion hl.2.2, Nat.add_zero]
  · intro _ l hl hticket
    exact absurd (mapped l hl).2 hticket
  · intro hdevice _ tensor t hnamed hreads status hstatus
    obtain ⟨hbudget, hover⟩ := full status hstatus hdevice tensor t hnamed hreads
    refine ⟨hbudget, Nat.lt_of_lt_of_le hover ?_⟩
    have hcounted : w.source.stats.bytesDevice = w.liveDevice := h.counted
    rw [← hcounted]
    exact Nat.mod_le _ _

theorem Balanced.found (h : Balanced w) {tensor i : Nat} {e : CacheEntry}
    (he : w.source.entries[i]? = some e) (same : SameCache w.source st.source)
    (hclock : w.source.clock < 2 ^ 64 - 1)
    (htiers : w.leases = [] → ∀ tier, tier ≠ .device →
      tierBytes tier w.source.entries ≤ budgetFor w.source.cfg tier) :
    Balanced (w.acquired (.ok (hit st tensor i e).1, (hit st tensor i e).2.countHit)) ∧
      KeepsBudgets w name desired o
        (.ok (hit st tensor i e).1, (hit st tensor i e).2.countHit) := by
  have hordered := h.ordered.of_same same
  have he' : st.source.entries[i]? = some e := same.entries ▸ he
  have hclock' : st.source.clock < 2 ^ 64 - 1 := same.clock ▸ hclock
  have htier (tier : Tier) : tierBytes tier (hit st tensor i e).2.countHit.source.entries =
      tierBytes tier w.source.entries := by
    rw [← same.entries]
    exact tierBytes_modify
      (f := fun x => { x with refs := inc64 x.refs, age := inc64 st.source.clock })
      (fun _ => ⟨rfl, rfl⟩) st.source.entries i
  -- the position is a number that does not wrap, so the ticket is not zero
  have hticket : (hit st tensor i e).1.ticket ≠ 0 := by
    have hlt := (List.getElem?_eq_some_iff.1 he').1
    have hlength := hordered.length
    have htickets := hordered.tickets
    have hmod : (i + 1) % 2 ^ 64 = i + 1 := Nat.mod_eq_of_lt (by omega)
    change (i + 1) % 2 ^ 64 ≠ 0
    omega
  have hbalanced : Balanced (w.acquired
      (.ok (hit st tensor i e).1, (hit st tensor i e).2.countHit)) := by
    refine h.kept ((hordered.touch he' hclock').of_same ⟨rfl, rfl, rfl, rfl, rfl, rfl⟩) same.cfg
      same.bytesDevice ?_
    unfold World.acquired
    dsimp only
    rw [liveDevice_append, Lease.deviceBytes, if_neg fun hl => hticket hl.2.1, Nat.add_zero]
    unfold World.liveDevice
    dsimp only
    rw [htier]
  refine ⟨hbalanced, ?_, ?_⟩
  · intro hleases l hl _
    obtain rfl := Except.ok.inj hl
    have hcfg : (hit st tensor i e).2.countHit.source.cfg = w.source.cfg := same.cfg
    refine ⟨fun tier hdevice => ?_, hbalanced.device⟩
    rw [htier, hcfg]
    exact htiers hleases tier hdevice
  · intro _ _ _ _ _ _ status hstatus
    cases hstatus

/-- With nothing pinned, what the evictions for a tensor leave of a tier other than the pinned one
fits the host budget, with the tensor if it is of that tier. -/
theorem Ordered.spared_fits {s : Source} (h : Ordered s) (hclock : s.clock < 2 ^ 64 - 1)
    (hbudget : budgetFor s.cfg desired ≠ 0 ∧ n ≤ budgetFor s.cfg desired)
    (hunpinned : ∀ e ∈ s.entries, e.refs = 0) {tier : Tier} (htier : tier ≠ .pinned) :
    tierBytes tier (s.spared n) + (if desired = tier then n else 0) ≤ budgetFor s.cfg tier := by
  have hleft : Ordered { s with entries := s.spared n } := h.sublist List.filter_sublist
  have hbudgetFor : budgetFor s.cfg tier = s.cfg.hostBudgetBytes := if_neg htier
  have hneed : desired = tier → n ≤ s.cfg.hostBudgetBytes := by
    rintro rfl
    rw [← hbudgetFor]
    exact hbudget.2
  rw [hbudgetFor]
  by_cases hzero : s.cfg.hostBudgetBytes = 0
  · -- only the pinned tier is cached
    have hnone : tierBytes tier (s.spared n) = 0 := by
      unfold tierBytes
      apply List.sum_eq_zero
      intro x hx
      obtain ⟨e, he, rfl⟩ := List.mem_map.1 hx
      apply if_neg
      rw [hleft.unbudgeted hzero e he]
      exact htier.symm
    rw [hnone, if_neg]
    · exact Nat.zero_le _
    · rintro rfl
      exact hbudget.1 (hbudgetFor.trans hzero)
  · have hle := tierBytes_le tier (s.spared n)
    obtain ⟨-, hends⟩ := evictFor_spares ⟨s, .empty⟩ n h.ages h.small
    rcases hends hzero with hfits | hbusy
    · have htotal := hfits.le hleft.owns hleft.small
      dsimp only at htotal
      split
      · rename_i hsame
        have hroom := htotal.2 (hneed hsame)
        omega
      · omega
    · -- everything idle is gone, and nothing is pinned
      have hnone : s.spared n = [] := by
        apply List.eq_nil_iff_forall_not_mem.2
        intro e he
        have hmem : e ∈ s.entries := List.mem_of_mem_filter he
        have hpast := h.past e hmem
        exact hbusy e he ⟨h.owns e hmem, hunpinned e hmem, by omega⟩
      rw [hnone]
      split
      · rename_i hsame
        rw [show tierBytes tier [] = 0 from rfl, Nat.zero_add]
        exact hneed hsame
      · exact Nat.zero_le _

/-- The tensor goes into the cache, or there is no room for its entry. -/
theorem Balanced.cached (h : Balanced w) {tensor block : Nat} {reallocOk : Bool}
    (hcaches : CachesWithin w desired n reallocOk)
    (hfits : desired = .device → w.source.stats.bytesDevice + n < 2 ^ 64)
    (hgranted : ¬ (desired = .device ∧ Refuses w.source n))
    (hbudget : budgetFor w.source.cfg desired ≠ 0 ∧ n ≤ budgetFor w.source.cfg desired) :
    Balanced (w.acquired (place w.toState tensor block n desired reallocOk)) ∧
      (w.leases = [] → ∀ l, (place w.toState tensor block n desired reallocOk).1 = .ok l →
        WithinBudgets (place w.toState tensor block n desired reallocOk).2.source) ∧
      (reallocOk = true → ∀ status,
        (place w.toState tensor block n desired reallocOk).1 ≠ .error status) := by
  have hages := h.ordered.ages
  have hsmall := h.ordered.small
  -- the evictions give back no device memory
  have hspared : tierBytes .device (w.source.spared n) = tierBytes .device w.source.entries :=
    tierBytes_filter fun e he htier hbytes => decide_eq_true (hcaches.device e he htier hbytes)
  rcases place_cached tensor block reallocOk hbudget hages hsmall with ⟨hfails, st, hplace, same⟩ | ⟨hroom, st, hplace, hcached⟩
  · rw [hplace]
    refine ⟨?_, ?_, ?_⟩
    · have hleft : Ordered { w.source with entries := w.source.spared n } :=
        h.ordered.sublist List.filter_sublist
      refine h.kept (hleft.of_same same) same.cfg same.bytesDevice ?_
      unfold World.acquired World.liveDevice
      dsimp only
      rw [same.entries, hspared]
    · intro _ l hl
      cases hl
    · intro hok
      rw [hfails] at hok
      cases hok
  · rw [hplace]
    have htier (tier : Tier) : tierBytes tier st.source.entries =
        tierBytes tier (w.source.spared n) + if desired = tier then n else 0 := by
      rw [hcached.entries, tierBytes_append]
      rfl
    have htickets := h.ordered.tickets
    have hclock := hcaches.clock
    have hticket : inc64 w.source.nextTicket ≠ 0 := by
      rw [inc64_of_lt (by omega)]
      exact Nat.succ_ne_zero _
    have hbalanced : Balanced (w.acquired
        (.ok ⟨tensor, .block block, n, desired, inc64 w.source.nextTicket, false⟩, st)) := by
      refine h.grown
        (h.ordered.cached hcached hcaches.clock hcaches.small hbudget.1) hcached.cfg
        hcached.bytesDevice ?_ hfits hgranted
      unfold World.acquired
      dsimp only
      rw [liveDevice_append, Lease.deviceBytes, if_neg fun hl => hticket hl.2.1, Nat.add_zero]
      unfold World.liveDevice
      dsimp only
      rw [htier, hspared]
      omega
    refine ⟨hbalanced, ?_, ?_⟩
    · intro hleases l _
      refine ⟨fun tier hdevice => ?_, hbalanced.device⟩
      rw [htier, hcached.cfg]
      by_cases hpinned : tier = .pinned ∨ ∃ e ∈ w.source.entries, e.refs ≠ 0
      · exact hcaches.tiers hleases hroom tier hdevice hpinned
      · have hunpinned : ∀ e ∈ w.source.entries, e.refs = 0 := by
          intro e he
          by_contra hrefs
          exact hpinned (Or.inr ⟨e, he, hrefs⟩)
        exact h.ordered.spared_fits hcaches.clock hbudget hunpinned fun htier =>
          hpinned (Or.inl htier)
    · intro _ status hstatus
      cases hstatus

theorem Balanced.placed (h : Balanced w) {tensor block : Nat} {reallocOk : Bool}
    (hcaches : budgetFor w.source.cfg desired ≠ 0 ∧ n ≤ budgetFor w.source.cfg desired →
      CachesWithin w desired n reallocOk)
    (hfits : desired = .device → w.source.stats.bytesDevice + n < 2 ^ 64)
    (hgranted : ¬ (desired = .device ∧ Refuses w.source n)) :
    Balanced (w.acquired (place w.toState tensor block n desired reallocOk)) ∧
      (w.leases = [] → ∀ l, (place w.toState tensor block n desired reallocOk).1 = .ok l →
        l.ticket ≠ 0 → WithinBudgets (place w.toState tensor block n desired reallocOk).2.source) ∧
      (reallocOk = true → ∀ status,
        (place w.toState tensor block n desired reallocOk).1 ≠ .error status) := by
  by_cases hbudget : budgetFor w.source.cfg desired ≠ 0 ∧ n ≤ budgetFor w.source.cfg desired
  · obtain ⟨hbalanced, hwithin, hok⟩ := h.cached (hcaches hbudget) hfits hgranted hbudget
    exact ⟨hbalanced, fun hleases l hl _ => hwithin hleases l hl, hok⟩
  · rw [place_transient hbudget]
    refine ⟨?_, ?_, ?_⟩
    · have hordered := h.ordered
      refine h.grown ⟨hordered.owns, hordered.ages, hordered.past, hordered.small, hordered.length,
        hordered.tickets, hordered.unbudgeted⟩ rfl rfl ?_ hfits hgranted
      unfold World.acquired
      dsimp only
      rw [liveDevice_append, Lease.deviceBytes]
      simp [World.liveDevice, State.account]
    · intro _ l hl hticket
      obtain rfl := Except.ok.inj hl
      exact absurd rfl hticket
    · intro _ status hstatus
      cases hstatus

theorem CachesWithin.of_same {reallocOk : Bool} (h : CachesWithin w desired n reallocOk)
    (same : SameCache w.source st.source) :
    CachesWithin ⟨st, w.leases⟩ desired n reallocOk where
  clock := by
    rw [same.clock]
    exact h.clock
  small := by
    rw [same.entries]
    exact h.small
  device := by
    intro e he htier hbytes
    rw [same.sparedFor]
    exact h.device e (same.entries ▸ he) htier hbytes
  tiers := by
    unfold TiersFit
    rw [same.spared, same.capacity, same.entries, same.cfg]
    exact h.tiers

theorem Balanced.acquire (h : Balanced w) (hfrugal : Frugal w (.acquire name desired o)) :
    Balanced (w.call (.acquire name desired o)) ∧ Budgeted w (.acquire name desired o) := by
  have hcall : w.call (.acquire name desired o) =
      w.acquired (TensorSource.acquire w.toState name desired o) := by
    unfold World.call World.acquired
    dsimp only
    generalize TensorSource.acquire w.toState name desired o = r
    obtain ⟨status | l, st⟩ := r <;> rfl
  rw [hcall]
  change _ ∧ KeepsBudgets w name desired o (TensorSource.acquire w.toState name desired o)
  have hacquired := acquire_acquired w.toState name desired o
  generalize TensorSource.acquire w.toState name desired o = r at hacquired ⊢
  cases hacquired with
  | aside same mapped full => exact h.aside same mapped full
  | found named entry at_ same =>
    have hguard := hfrugal _ named
    rw [if_pos (by rw [entry]; rfl)] at hguard
    exact h.found at_ same hguard.1 hguard.2
  | placed named absent unmapped reads granted same =>
    rename_i tensor t block st
    have hguard := hfrugal _ named
    rw [if_neg (by rw [absent]; exact Bool.noConfusion)] at hguard
    obtain ⟨hfits, hcaches⟩ := hguard unmapped reads granted
    have hst : Balanced ⟨st, w.leases⟩ := by
      refine h.kept (h.ordered.of_same same) same.cfg same.bytesDevice ?_
      unfold World.liveDevice
      rw [same.entries]
    -- the tensor is placed in a world with the same cache
    obtain ⟨hbalanced, hwithin, hok⟩ := hst.placed
      (fun hbudget => (hcaches (same.cfg ▸ hbudget)).of_same same)
      (fun hdevice => same.bytesDevice.symm ▸ hfits hdevice)
      (fun hrefused => granted ⟨hrefused.1, (same.refuses _).1 hrefused.2⟩)
    refine ⟨hbalanced, hwithin, ?_⟩
    intro _ hrealloc _ _ _ _ status hstatus
    exact absurd hstatus (hok hrealloc status)

/-- A release drops a reference, or frees a block; it never touches the count. -/
theorem Balanced.release (h : Balanced w) {i : Nat} (hfrugal : Frugal w (.release i)) :
    Balanced (w.call (.release i)) := by
  unfold World.call
  dsimp only
  cases hl : w.leases[i]? with
  | none => exact h
  | some l =>
    dsimp only
    have hzero : l.deviceBytes = 0 := hfrugal l hl
    have hleases := deviceBytes_eraseIdx hl
    have hlive (st : State) (hdevice : tierBytes .device st.source.entries =
        tierBytes .device w.source.entries) :
        World.liveDevice ⟨st, w.leases.eraseIdx i⟩ = w.liveDevice := by
      unfold World.liveDevice
      dsimp only
      omega
    rcases release_eq w.toState l with heq | ⟨k, heq⟩ | ⟨b, heq⟩ <;> rw [heq]
    · exact h.kept h.ordered rfl rfl (hlive _ rfl)
    · have hordered : Ordered (w.toState.withEntries (w.source.entries.modify k fun e =>
          { e with refs := e.refs - 1 })).source := h.ordered.drop k
      refine h.kept hordered rfl rfl (hlive _ ?_)
      apply tierBytes_modify
      exact fun _ => ⟨rfl, rfl⟩
    · exact h.kept h.ordered rfl rfl (hlive _ rfl)

theorem Balanced.step {w' : World} {c : Call} (h : Balanced w) (hfrugal : Frugal w c)
    (hstep : w.step c = some w') : Balanced w' ∧ Budgeted w c := by
  obtain rfl := Option.some.inj hstep
  cases c with
  | acquire name desired o => exact h.acquire hfrugal
  | release i => exact ⟨h.release hfrugal, trivial⟩

end Steps

/-- In a run of frugal calls the budgets are kept, and the counter is exact in every state. -/
theorem budgets_of_frugal (file : Handle) (cfg : Option Config) (calls : List Call)
    (hfrugal : Run.Guarded World.step Frugal (World.opened file cfg) calls) :
    Run.Always World.step Counted (World.opened file cfg) calls ∧
      Run.Guarded World.step Budgeted (World.opened file cfg) calls := by
  have hbalanced : Run.Always World.step Balanced (World.opened file cfg) calls :=
    Run.always_of_guarded (fun w c w' h hc hstep => (h.step hc hstep).1)
      (balanced_opened file cfg) hfrugal
  refine ⟨hbalanced.imp fun w h => h.counted, ?_⟩
  intro done c w hdone hexec
  have hw : Balanced w := hbalanced done w ((List.prefix_append done [c]).trans hdone) hexec
  exact (hw.step (hfrugal done c w hdone hexec) rfl).2

/-- A tensor of each tier but the mapped one, a hit, and an eviction from the pinned tier. -/
def frugalCalls : List Call :=
  [.acquire [97] .host smooth, .release 0, .acquire [98] .pinned smooth, .release 0,
    .acquire [97] .host smooth, .acquire [99] .device smooth]

theorem budgets_of_frugal_tiers :
    Run.Always World.step Counted
        (World.opened threeHandle (some ⟨64, 32, 64, false, false⟩)) frugalCalls ∧
      Run.Guarded World.step Budgeted
        (World.opened threeHandle (some ⟨64, 32, 64, false, false⟩)) frugalCalls :=
  budgets_of_frugal _ _ _ (Run.guarded_of_check (by decide +kernel))

/-- The only device tensor is released before another one of its size is acquired. -/
def driftCalls : List Call :=
  [.acquire [97] .device smooth, .release 0, .acquire [98] .device smooth]

def driftedWorld : World :=
  (driftCalls.take 2).foldl World.call (World.opened threeHandle (some ⟨0, 0, 32, false, false⟩))

/-- The counter keeps the bytes of the released lease, so the device stays full for ever. -/
theorem budgets_drift : ¬ ∀ (file : Handle) (cfg : Option Config) (calls : List Call),
    Run.Always World.step Counted (World.opened file cfg) calls ∧
      Run.Guarded World.step Budgeted (World.opened file cfg) calls := by
  intro hclaim
  obtain ⟨-, hbudgeted⟩ := hclaim threeHandle (some ⟨0, 0, 32, false, false⟩) driftCalls
  have hlast : KeepsBudgets driftedWorld [98] .device smooth
      (acquire driftedWorld.toState [98] .device smooth) :=
    hbudgeted (driftCalls.take 2) _ driftedWorld (List.prefix_refl _) (exec_step _ _)
  have hroom : ∀ p ∈ findTensor driftedWorld.source.file.index [98],
      smooth.reads driftedWorld.source.file p.2 = true ∧
        driftedWorld.liveDevice + p.2.nbytes ≤ driftedWorld.source.cfg.deviceBudgetBytes := by
    decide +kernel
  have hnamed : (findTensor driftedWorld.source.file.index [98]).isSome = true := by
    decide +kernel
  have hrefused : (acquire driftedWorld.toState [98] .device smooth).1.isOk = false := by
    decide +kernel
  obtain ⟨⟨tensor, t⟩, hfind⟩ := Option.isSome_iff_exists.1 hnamed
  obtain ⟨hreads, hfits⟩ := hroom (tensor, t) hfind
  cases hresult : (acquire driftedWorld.toState [98] .device smooth).1 with
  | ok l =>
    rw [hresult] at hrefused
    cases hrefused
  | error status =>
    obtain ⟨-, hfull⟩ := hlast.refused rfl rfl tensor t hfind hreads status hresult
    exact absurd hfits (Nat.not_le.2 hfull)

end VgEngine.TensorSource
