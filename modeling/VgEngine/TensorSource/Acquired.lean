import VgEngine.TensorSource.Pins

/-! The bytes of the tiers, and what an acquire can do to the cache and to the count of device
bytes. -/
namespace VgEngine.TensorSource
open Gguf Keyed Eviction

variable {st : State} {w : World} {entries : List CacheEntry} {leases : List Lease} {tier : Tier}

/-- The bytes of the entries of a tier. -/
def tierBytes (tier : Tier) (entries : List CacheEntry) : Nat :=
  (entries.map fun e => if e.tier = tier then e.bytes else 0).sum

/-- The device bytes of a lease that has a block of its own; those of a lease on an entry are the
bytes of the entry. -/
def Lease.deviceBytes (l : Lease) : Nat :=
  if l.tier = .device ∧ l.ticket = 0 ∧ l.mapped = false then l.size else 0

/-- The bytes of the live device entries and leases. -/
def World.liveDevice (w : World) : Nat :=
  tierBytes .device w.source.entries + (w.leases.map Lease.deviceBytes).sum

/-- The device budget leaves no room for `n` bytes more, by the counter. -/
def Refuses (s : Source) (n : Nat) : Prop :=
  s.cfg.deviceBudgetBytes ≠ 0 ∧ s.cfg.deviceBudgetBytes < (s.stats.bytesDevice + n) % 2 ^ 64

instance (s : Source) (n : Nat) : Decidable (Refuses s n) := inferInstanceAs (Decidable (_ ∧ _))

/-- There is memory for the tensor and it can be read. -/
def Outcome.reads (o : Outcome) (file : Handle) (t : GgufTensor) : Bool :=
  o.mallocOk && (ggufRead o.read file t 0 t.nbytes).1.isOk

section Sums

theorem tierBytes_append (a b : List CacheEntry) :
    tierBytes tier (a ++ b) = tierBytes tier a + tierBytes tier b := by
  simp [tierBytes]

theorem tierBytes_le (tier : Tier) (entries : List CacheEntry) :
    tierBytes tier entries ≤ totalBytes entries := by
  unfold tierBytes totalBytes
  apply List.sum_le_sum
  intro e _
  split
  · exact le_refl _
  · exact Nat.zero_le _

/-- Dropping entries without bytes in the tier leaves the bytes of the tier. -/
theorem tierBytes_filter {p : CacheEntry → Bool}
    (h : ∀ e ∈ entries, e.tier = tier → e.bytes ≠ 0 → p e = true) :
    tierBytes tier (entries.filter p) = tierBytes tier entries := by
  induction entries with
  | nil => rfl
  | cons e entries ih =>
    have hrest := ih fun x hx => h x (List.mem_cons_of_mem _ hx)
    unfold tierBytes at hrest ⊢
    by_cases hkept : p e = true
    · rw [List.filter_cons_of_pos hkept, List.map_cons, List.map_cons, List.sum_cons,
        List.sum_cons, hrest]
    · have hzero : (if e.tier = tier then e.bytes else 0) = 0 := by
        split
        · rename_i htier
          by_contra hbytes
          exact hkept (h e List.mem_cons_self htier hbytes)
        · rfl
      rw [List.filter_cons_of_neg hkept, List.map_cons, List.sum_cons, hzero, hrest, Nat.zero_add]

theorem tierBytes_modify {f : CacheEntry → CacheEntry}
    (hf : ∀ e, (f e).tier = e.tier ∧ (f e).bytes = e.bytes) (entries : List CacheEntry) (i : Nat) :
    tierBytes tier (entries.modify i f) = tierBytes tier entries := by
  unfold tierBytes
  rw [map_modify]
  intro e
  rw [(hf e).1, (hf e).2]

/-- The device bytes of a lease that is given back. -/
theorem deviceBytes_eraseIdx {i : Nat} {l : Lease} (h : leases[i]? = some l) :
    l.deviceBytes + ((leases.eraseIdx i).map Lease.deviceBytes).sum =
      (leases.map Lease.deviceBytes).sum := by
  induction leases generalizing i with
  | nil => simp at h
  | cons x leases ih =>
    cases i with
    | zero =>
      obtain rfl : x = l := by simpa using h
      rw [List.eraseIdx_cons_zero, List.map_cons, List.sum_cons]
    | succ i =>
      have hrest := ih (i := i) (by simpa using h)
      rw [List.eraseIdx_cons_succ, List.map_cons, List.map_cons, List.sum_cons, List.sum_cons]
      omega

end Sums

section Acquired

/-- Two sources with the same cache and the same count of device bytes. -/
structure SameCache (s s' : Source) : Prop where
  cfg : s'.cfg = s.cfg
  entries : s'.entries = s.entries
  capacity : s'.capacity = s.capacity
  clock : s'.clock = s.clock
  nextTicket : s'.nextTicket = s.nextTicket
  bytesDevice : s'.stats.bytesDevice = s.stats.bytesDevice

theorem SameCache.refl (s : Source) : SameCache s s := ⟨rfl, rfl, rfl, rfl, rfl, rfl⟩

theorem SameCache.refuses {s s' : Source} (h : SameCache s s') (n : Nat) :
    Refuses s' n ↔ Refuses s n := by
  unfold Refuses
  rw [h.cfg, h.bytesDevice]

theorem SameCache.sparedFor {s s' : Source} (h : SameCache s s') (need : Nat) (e : CacheEntry) :
    SparedFor s' need e ↔ SparedFor s need e := by
  have hfits : Fits s' need = Fits s need := by
    funext entries
    unfold Fits overBudget
    dsimp only
    rw [h.cfg]
  unfold SparedFor Eviction.Spared
  rw [h.cfg, h.entries, hfits]

theorem SameCache.spared {s s' : Source} (h : SameCache s s') (need : Nat) :
    s'.spared need = s.spared need := by
  unfold Source.spared
  rw [h.entries]
  apply List.filter_congr
  intro e _
  rw [decide_eq_decide]
  exact h.sparedFor need e

/-- What an acquire does: it leaves the cache as it is, finds its entry, or has read the tensor and
places it. -/
inductive Acquired (st : State) (name : List UInt8) (desired : Tier) (o : Outcome) :
    Except Status Lease × State → Prop
  | aside {r : Except Status Lease × State} (same : SameCache st.source r.2.source)
    (mapped : ∀ l, r.1 = .ok l → l.mapped = true ∧ l.ticket = 0)
    (full : ∀ status, r.1 = .error status → desired = .device → ∀ tensor t,
      findTensor st.source.file.index name = some (tensor, t) →
      o.reads st.source.file t = true → Refuses st.source t.nbytes) : Acquired st name desired o r
  | found {tensor : Nat} {t : GgufTensor} {i : Nat} {e : CacheEntry} {st₁ : State}
    (named : findTensor st.source.file.index name = some (tensor, t))
    (entry : findEntry st.source.entries tensor desired = some i)
    (at_ : st.source.entries[i]? = some e) (same : SameCache st.source st₁.source) :
    Acquired st name desired o (.ok (hit st₁ tensor i e).1, (hit st₁ tensor i e).2.countHit)
  | placed {tensor : Nat} {t : GgufTensor} {block : Nat} {st₁ : State}
    (named : findTensor st.source.file.index name = some (tensor, t))
    (absent : findEntry st.source.entries tensor desired = none)
    (unmapped : ¬ (desired = .storage ∧ st.source.cfg.useMmap = true))
    (reads : o.reads st.source.file t = true)
    (granted : ¬ (desired = .device ∧ Refuses st.source t.nbytes))
    (same : SameCache st.source st₁.source) :
    Acquired st name desired o (place st₁ tensor block t.nbytes desired o.reallocOk)

variable {name : List UInt8} {desired : Tier} {o : Outcome} {tensor : Nat} {t : GgufTensor}
  {st₁ : State}

theorem load_acquired (named : findTensor st.source.file.index name = some (tensor, t))
    (absent : findEntry st.source.entries tensor desired = none)
    (unmapped : ¬ (desired = .storage ∧ st.source.cfg.useMmap = true))
    (hfile : st₁.source.file = st.source.file) (same : SameCache st.source st₁.source) :
    Acquired st name desired o (load st₁ tensor t desired o) := by
  have hread {tensor' : Nat} {t' : GgufTensor}
      (named' : findTensor st.source.file.index name = some (tensor', t')) : t' = t :=
    (Prod.mk.inj (Option.some.inj (named'.symm.trans named))).2
  unfold load
  by_cases hmalloc : o.mallocOk = false
  · rw [if_pos hmalloc]
    refine .aside same (fun l h => by cases h) ?_
    intro status _ _ tensor' t' _ hreads
    rw [Outcome.reads, hmalloc] at hreads
    cases hreads
  · rw [if_neg hmalloc]
    dsimp only
    cases hresult : (ggufRead o.read st₁.source.file t 0 t.nbytes).1 with
    | error status =>
      refine .aside ⟨same.cfg, same.entries, same.capacity, same.clock, same.nextTicket,
        same.bytesDevice⟩ (fun l h => by cases h) ?_
      intro _ _ _ tensor' t' named' hreads
      rw [hread named', Outcome.reads, ← hfile, hresult] at hreads
      simp [Except.isOk, Except.toBool] at hreads
    | ok bytes =>
      have hreads : o.reads st.source.file t = true := by
        rw [Outcome.reads, ← hfile, hresult]
        simpa [Except.isOk, Except.toBool] using hmalloc
      dsimp only
      have hrefuses := same.refuses t.nbytes
      split
      · rename_i hfull
        refine .aside ⟨same.cfg, same.entries, same.capacity, same.clock, same.nextTicket,
          same.bytesDevice⟩ (fun l h => by cases h) ?_
        intro _ _ _ tensor' t' named' _
        rw [hread named', ← hrefuses]
        exact hfull.2
      · rename_i hfull
        exact .placed named absent unmapped hreads
          (fun hdevice => hfull ⟨hdevice.1, hrefuses.2 hdevice.2⟩) ⟨same.cfg, same.entries,
            same.capacity, same.clock, same.nextTicket, same.bytesDevice⟩

theorem lookup_acquired (named : findTensor st.source.file.index name = some (tensor, t))
    (hfile : ¬ (desired = .storage ∧ st.source.cfg.useMmap = true) →
      st₁.source.file = st.source.file) (same : SameCache st.source st₁.source) :
    Acquired st name desired o (lookup st₁ tensor t desired o) := by
  have hmiss (absent : findEntry st.source.entries tensor desired = none) :
      Acquired st name desired o (miss st₁.countLookup tensor t desired o) := by
    have haside {r : Except Status Lease × State} (hr : SameCache st.source r.2.source)
        (hmapped : ∀ l, r.1 = .ok l → l.mapped = true ∧ l.ticket = 0)
        (hstorage : desired = .storage) : Acquired st name desired o r := by
      refine .aside hr hmapped ?_
      intro _ _ hdevice
      rw [hdevice] at hstorage
      cases hstorage
    unfold miss
    dsimp only
    split
    · rename_i hmmap
      split
      · refine haside ⟨same.cfg, same.entries, same.capacity, same.clock, same.nextTicket,
          same.bytesDevice⟩ (fun l h => ?_) hmmap.1
        cases h
        exact ⟨rfl, rfl⟩
      · exact haside ⟨same.cfg, same.entries, same.capacity, same.clock, same.nextTicket,
          same.bytesDevice⟩ (fun l h => by cases h) hmmap.1
    · rename_i hunmapped
      have hmmap : ¬ (desired = .storage ∧ st.source.cfg.useMmap = true) := same.cfg ▸ hunmapped
      exact load_acquired named absent hmmap (hfile hmmap) ⟨same.cfg, same.entries, same.capacity,
        same.clock, same.nextTicket, same.bytesDevice⟩
  unfold lookup
  dsimp only
  have hentries : st₁.countLookup.source.entries = st.source.entries := same.entries
  rw [hentries]
  cases hfind : findEntry st.source.entries tensor desired with
  | none => exact hmiss hfind
  | some i =>
    obtain ⟨e, he, -⟩ := findEntry_some hfind
    dsimp only
    rw [he]
    exact .found named hfind he ⟨same.cfg, same.entries, same.capacity, same.clock,
      same.nextTicket, same.bytesDevice⟩

theorem acquire_acquired (st : State) (name : List UInt8) (desired : Tier) (o : Outcome) :
    Acquired st name desired o (acquire st name desired o) := by
  unfold acquire
  cases named : findTensor st.source.file.index name with
  | none =>
    refine .aside (SameCache.refl _) (fun l h => by cases h) ?_
    intro _ _ _ tensor t named'
    rw [named] at named'
    cases named'
  | some p =>
    obtain ⟨tensor, t⟩ := p
    dsimp only
    by_cases hmmap : desired = .storage ∧ st.source.cfg.useMmap = true
    · rw [if_pos hmmap]
      split
      · refine .aside ⟨rfl, rfl, rfl, rfl, rfl, rfl⟩ (fun l h => ?_) fun _ h => by cases h
        cases h
        exact ⟨rfl, rfl⟩
      · exact lookup_acquired named (fun h => absurd hmmap h) ⟨rfl, rfl, rfl, rfl, rfl, rfl⟩
    · rw [if_neg hmmap]
      exact lookup_acquired named (fun _ => rfl) (SameCache.refl _)

end Acquired

section Place

variable {desired : Tier} {n : Nat}

theorem reserveEntry_cases (reallocOk : Bool) (st : State) :
    (reserveEntry reallocOk st = none ∧ reallocOk = false) ∨
    ∃ capacity, reserveEntry reallocOk st = some { st with source := { st.source with
        capacity := capacity } } ∧
      (reallocOk = true ∨ st.source.entries.length ≠ st.source.capacity) := by
  unfold reserveEntry
  split
  · cases reallocOk with
    | false => exact Or.inl ⟨rfl, rfl⟩
    | true => exact Or.inr ⟨_, rfl, Or.inl rfl⟩
  · rename_i hroom
    exact Or.inr ⟨st.source.capacity, rfl, Or.inr hroom⟩

/-- The tensor went into the cache, after the evictions for it. -/
structure Cached (s : Source) (tensor block n : Nat) (desired : Tier) (s' : Source) : Prop where
  cfg : s'.cfg = s.cfg
  entries : s'.entries = s.spared n ++
    [⟨tensor, block, n, 1, inc64 s.clock, inc64 s.nextTicket, desired, true⟩]
  clock : s'.clock = inc64 s.clock
  nextTicket : s'.nextTicket = inc64 s.nextTicket
  bytesDevice : s'.stats.bytesDevice =
    if desired = .device then (s.stats.bytesDevice + n) % 2 ^ 64 else s.stats.bytesDevice

/-- A tensor within its budget is cached, unless there is no room for its entry. -/
theorem place_cached (tensor block : Nat) (reallocOk : Bool)
    (hbudget : budgetFor st.source.cfg desired ≠ 0 ∧ n ≤ budgetFor st.source.cfg desired)
    (hages : (st.source.entries.map CacheEntry.age).Nodup)
    (hsmall : totalBytes st.source.entries < 2 ^ 64) :
    (reallocOk = false ∧ ∃ st', place st tensor block n desired reallocOk = (.error .nomem, st') ∧
      SameCache { st.source with entries := st.source.spared n } st'.source) ∨
    ((reallocOk = true ∨ (st.source.spared n).length ≠ st.source.capacity) ∧
      ∃ st', place st tensor block n desired reallocOk =
        (.ok ⟨tensor, .block block, n, desired, inc64 st.source.nextTicket, false⟩, st') ∧
        Cached st.source tensor block n desired st'.source) := by
  obtain ⟨⟨evictions, hsource⟩, -⟩ := evictFor_spares st n hages hsmall
  unfold place
  rw [if_pos hbudget]
  dsimp only
  generalize evictFor st n = evicted at hsource
  obtain ⟨source, memory⟩ := evicted
  obtain rfl := hsource
  rcases reserveEntry_cases reallocOk ⟨_, memory⟩ with ⟨hnone, hfails⟩ | ⟨c, hsome, hroom⟩
  · rw [hnone]
    exact Or.inl ⟨hfails, _, rfl, ⟨rfl, rfl, rfl, rfl, rfl, rfl⟩⟩
  · rw [hsome]
    exact Or.inr ⟨hroom, _, rfl, ⟨rfl, rfl, rfl, rfl, rfl⟩⟩

/-- A tensor beyond its budget is handed out as a transient lease. -/
theorem place_transient {tensor block : Nat} {reallocOk : Bool}
    (hbudget : ¬ (budgetFor st.source.cfg desired ≠ 0 ∧ n ≤ budgetFor st.source.cfg desired)) :
    place st tensor block n desired reallocOk =
      (.ok ⟨tensor, .block block, n, desired, 0, false⟩,
        st.account desired n (budgetFor st.source.cfg desired)) := by
  unfold place
  exact if_neg hbudget

end Place

end VgEngine.TensorSource
