import VgEngine.KvCache.Counters
import VgEngine.KvCache.Identity

/-! The counters and the host budget over whole runs. The counters follow the pages until
`vg_kv_page_acquire` gives a page another tier, and `new_page` makes room before it adds. -/
namespace VgEngine.KvCache

variable {env : Nat → Bool} {w w' : World} {h token : Nat} {q : KvSequence}

/-- One more page is counted exactly and keeps the budget. -/
structure OpensWithin (s : KvStore) : Prop where
  bytes : (s.pageCount + 1) * pageBytes s.cfg < 2 ^ 64
  clock : s.clock < 2 ^ 64 - 1
  room : RoomForPage s

/-- The pages there are keep the budget, or all of them are in use. -/
def HoldsBudget (s : KvStore) : Prop :=
  s.cfg.hostBudgetBytes = 0 ∨ s.pageCount * pageBytes s.cfg ≤ s.cfg.hostBudgetBytes ∨
    referenced s = s.pageCount

/-- An append that opens a page has room for it, one that opens none finds the budget kept, and an
acquisition leaves its page on the side of the device where it is. -/
def Accountable (w : World) : Call → Prop
  | .append h _ => ∀ q ∈ w.seq h,
    if q.pages.length ≤ q.tokens.length / w.store.cfg.pageTokens then OpensWithin w.store
    else HoldsBudget w.store
  | .pageAcquire h layer token desired => ∀ q ∈ w.seq h,
    layer < w.store.cfg.nLayers → token < q.tokens.length →
    ∀ x ∈ q.pages[token / w.store.cfg.pageTokens]?,
      w.store.clock < 2 ^ 64 - 1 ∧ (x.ptr.index < w.store.pageCount →
        (desired = .device ↔ (w.store.cells x.ptr.index).tier = .device))
  | _ => True

instance (s : KvStore) : Decidable (OpensWithin s) :=
  decidable_of_iff ((s.pageCount + 1) * pageBytes s.cfg < 2 ^ 64 ∧ s.clock < 2 ^ 64 - 1 ∧
      (s.cfg.hostBudgetBytes = 0 ∨ (s.pageCount + 1) * pageBytes s.cfg ≤ s.cfg.hostBudgetBytes ∨
        s.cfg.hostBudgetBytes < (referenced s + 1) * pageBytes s.cfg))
    ⟨fun h => ⟨h.1, h.2.1, h.2.2⟩, fun h => ⟨h.bytes, h.clock, h.room⟩⟩

instance (s : KvStore) : Decidable (HoldsBudget s) :=
  inferInstanceAs (Decidable (_ ∨ _ ∨ _))

instance (w : World) : (call : Call) → Decidable (Accountable w call)
  | .append h _ => inferInstanceAs (Decidable (∀ q ∈ w.seq h,
    if q.pages.length ≤ q.tokens.length / w.store.cfg.pageTokens then OpensWithin w.store
    else HoldsBudget w.store))
  | .pageAcquire h layer token desired => inferInstanceAs (Decidable (∀ q ∈ w.seq h,
    layer < w.store.cfg.nLayers → token < q.tokens.length →
    ∀ x ∈ q.pages[token / w.store.cfg.pageTokens]?,
      w.store.clock < 2 ^ 64 - 1 ∧ (x.ptr.index < w.store.pageCount →
        (desired = .device ↔ (w.store.cells x.ptr.index).tier = .device))))
  | .sequenceInit => inferInstanceAs (Decidable True)
  | .fork _ _ => inferInstanceAs (Decidable True)
  | .close _ => inferInstanceAs (Decidable True)
  | .radixOpen => inferInstanceAs (Decidable True)
  | .radixInsert _ _ _ _ _ => inferInstanceAs (Decidable True)
  | .radixLookup _ _ => inferInstanceAs (Decidable True)
  | .radixInvalidate _ => inferInstanceAs (Decidable True)

theorem Tallied.sequenceAppend {status : Status} (hw : Tallied w.store)
    (hfits : Accountable w (.append h token))
    (happend : w.sequenceAppend env h token = some (status, w')) :
    Tallied w'.store ∧ (status = .ok → WithinBudget w'.store) := by
  obtain ⟨q, hq, happend⟩ := Option.bind_eq_some_iff.1 happend
  have hfits := hfits q hq
  obtain ⟨q', hresized, hfailed, hneeds⟩ := prepareAppend_resized env hq
  generalize w.prepareAppend env h q = prepared at hresized hfailed hneeds happend
  obtain ⟨result, w1⟩ := prepared
  have hstore : w1.store = w.store := hresized.store
  have hw1 : Tallied w1.store := hstore ▸ hw
  cases result with
  | error status =>
    obtain ⟨rfl, rfl⟩ := Prod.mk.inj (Option.some.inj happend)
    exact ⟨hw1, fun hok => absurd (congrArg Except.error hok) hfailed⟩
  | ok r =>
    obtain ⟨p, needed⟩ := r
    obtain ⟨-, hneeded⟩ := hneeds p needed rfl
    cases needed with
    | false =>
      rw [if_neg fun hfull => Bool.noConfusion (hneeded.2 hfull)] at hfits
      obtain ⟨-, rfl⟩ := Prod.mk.inj (Option.some.inj happend)
      refine ⟨hw1, fun _ => ?_⟩
      change WithinBudget w1.store
      rw [hstore]
      refine hfits.imp_right (Or.imp (fun hle => ?_) referenced_eq_iff.1)
      rw [hw.host, hw.hostSum_eq]
      exact hle
    | true =>
      rw [if_pos (hneeded.1 rfl)] at hfits
      obtain ⟨⟨slot, w2⟩, hnew, hend⟩ := Option.bind_eq_some_iff.1 happend
      obtain ⟨s1, htrimmed, hvictim, hpage⟩ := newPage_cases hw1 hnew
      rw [hstore] at htrimmed hvictim
      have hsmall : (s1.pageCount + 1) * pageBytes s1.cfg < 2 ^ 64 := by
        rw [htrimmed.cfg]
        have hle := Nat.mul_le_mul_right (pageBytes w.store.cfg)
          (Nat.succ_le_succ htrimmed.pageCount)
        exact hle.trans_lt hfits.bytes
      rcases hpage with ⟨rfl, hsame⟩ | ⟨hslot, hpushed⟩
      · obtain ⟨rfl, rfl⟩ := Prod.mk.inj (Option.some.inj hend)
        exact ⟨hsame ▸ htrimmed.tallied, fun hok => by cases hok⟩
      · obtain ⟨x, rfl⟩ := Option.isSome_iff_exists.1 hslot
        obtain ⟨-, rfl⟩ := Prod.mk.inj (Option.some.inj hend)
        have hclock : s1.clock < 2 ^ 64 - 1 := htrimmed.clock ▸ hfits.clock
        exact ⟨htrimmed.tallied.pushed hpushed hsmall hclock,
          fun _ => hfits.room.within hfits.clock htrimmed hvictim hsmall hpushed⟩

theorem Tallied.pageAcquire {layer : Nat} {desired : Tier}
    {result : Except Status (Option Nat × Nat × Nat)} (hw : Tallied w.store)
    (hsafe : Accountable w (.pageAcquire h layer token desired))
    (hacquire : w.pageAcquire env h layer token desired = some (result, w')) :
    Tallied w'.store := by
  obtain ⟨q, hq, hacquire⟩ := Option.bind_eq_some_iff.1 hacquire
  split at hacquire
  · obtain ⟨-, rfl⟩ := Prod.mk.inj (Option.some.inj hacquire)
    exact hw
  · rename_i hinside
    rw [not_or, not_le, not_le] at hinside
    obtain ⟨x, hx, hacquire⟩ := Option.bind_eq_some_iff.1 hacquire
    obtain ⟨page, -, hacquire⟩ := Option.bind_eq_some_iff.1 hacquire
    obtain ⟨hclock, hside⟩ := hsafe q hq hinside.1 hinside.2 x hx
    have hfault := faultPage_same env w x.ptr.index
    generalize w.faultPage env x.ptr.index = faulted at hfault hacquire
    obtain ⟨ok, w1⟩ := faulted
    have hw1 := hw.same hfault
    dsimp only at hfault hacquire
    split at hacquire
    · obtain ⟨-, rfl⟩ := Prod.mk.inj (Option.some.inj hacquire)
      exact hw1
    · obtain ⟨-, rfl⟩ := Prod.mk.inj (Option.some.inj hacquire)
      have hinc : inc64 w1.store.clock = w1.store.clock + 1 := by
        unfold inc64
        exact Nat.mod_eq_of_lt (by rw [hfault.clock]; omega)
      refine hw1.of_cells rfl rfl rfl rfl (fun i hi => ?_) (fun i hi => ?_) fun i hi => ?_ <;>
        dsimp only [World.setCell, World.withStore] <;> split
      · rename_i heq
        rw [heq]
      · rfl
      · rename_i heq
        rw [heq, hfault.tier]
        exact hside (by rw [← heq, ← hfault.pageCount]; exact hi)
      · exact Iff.rfl
      · exact Nat.le_refl _
      · rw [hinc]
        exact (hw1.ages i hi).trans (Nat.le_succ _)

theorem Tallied.step {call : Call} (hw : Tallied w.store) (hsafe : Accountable w call)
    (hstep : w.step env call = some w') : Tallied w'.store := by
  cases call with
  | sequenceInit =>
    obtain rfl := Option.some.inj hstep
    unfold World.sequenceInit World.ask
    dsimp only
    split <;> exact hw
  | append h token =>
    obtain ⟨⟨status, w1⟩, happend, rfl⟩ := Option.map_eq_some_iff.1 hstep
    exact (hw.sequenceAppend hsafe happend).1
  | fork src count =>
    obtain ⟨⟨result, w1⟩, hfork, rfl⟩ := Option.map_eq_some_iff.1 hstep
    exact hw.same (sequenceFork_same hfork)
  | close h => exact hw.same (sequenceClose_same hstep)
  | pageAcquire h layer token desired =>
    obtain ⟨⟨result, w1⟩, hacquire, rfl⟩ := Option.map_eq_some_iff.1 hstep
    exact hw.pageAcquire hsafe hacquire
  | radixOpen =>
    obtain rfl := Option.some.inj hstep
    unfold World.radixOpen World.ask
    dsimp only
    split
    · exact hw
    · split <;> exact hw
  | radixInsert r seq count fp tainted =>
    obtain ⟨⟨status, w1⟩, hinsert, rfl⟩ := Option.map_eq_some_iff.1 hstep
    exact hw.same (radixInsert_same hinsert)
  | radixLookup r tokens =>
    obtain ⟨result, hlookup, rfl⟩ := Option.map_eq_some_iff.1 hstep
    obtain ⟨t, -, hlookup⟩ := Option.bind_eq_some_iff.1 hlookup
    dsimp only at hlookup
    have hstats : ∀ stats : KvStats, stats.hostBytes = w.store.stats.hostBytes →
        stats.deviceBytes = w.store.stats.deviceBytes →
        Tallied { w.store with stats := stats } := fun stats hhost hdevice =>
      hw.same ⟨rfl, rfl, rfl, hhost, hdevice, fun _ => rfl, fun _ => rfl, fun _ => rfl⟩
    split at hlookup
    · exact Option.some.inj hlookup ▸ hstats _ rfl rfl
    · exact Option.some.inj hlookup ▸ hstats _ rfl rfl
  | radixInvalidate r =>
    obtain ⟨t, -, hstep⟩ := Option.bind_eq_some_iff.1 hstep
    obtain ⟨w1, hclose, hend⟩ := Option.bind_eq_some_iff.1 hstep
    obtain rfl := Option.some.inj hend
    have hsame := closeAll_same hclose
    exact hw.same hsame

theorem tallied_opened {cfg : KvConfig} {store : KvStore} (hopen : kvOpen cfg = .ok store) :
    Tallied store := by
  unfold kvOpen at hopen
  split_ifs at hopen
  obtain rfl := Except.ok.inj hopen
  exact ⟨rfl, rfl, by simp [hostSum, KvStore.opened], fun i hi => absurd hi (Nat.not_lt_zero i),
    fun i hi => absurd hi (Nat.not_lt_zero i)⟩

variable (env) in
/-- The counters are the sums, and cover every page that an eviction takes from the array. -/
structure Accounts (w : World) : Prop where
  host : w.store.stats.hostBytes = hostSum w.store
  device : w.store.stats.deviceBytes = deviceSum w.store
  covers : ∀ n w1 v, w.evictLoop env n = some w1 → World.victim w1.store = some v →
    (w1.store.cells v).bytes ≤ w1.store.stats.hostBytes ∧
      ((w1.store.cells v).tier = .device →
        (w1.store.cells v).bytes ≤ w1.store.stats.deviceBytes)

/-- After every append of the run that succeeds, the host budget is kept or no page is idle. -/
def BudgetKept (env : Nat → Bool) (w : World) (calls : List Call) : Prop :=
  ∀ done h token w1 w2, done ++ [.append h token] <+: calls →
    Run.exec (World.step env) w done = some w1 →
    w1.sequenceAppend env h token = some (.ok, w2) → WithinBudget w2.store

variable (env) in
theorem Tallied.accounts (hw : Tallied w.store) : Accounts env w where
  host := hw.host
  device := hw.device
  covers _ _ _ hloop hvictim :=
    (evictLoop_trimmed hw hloop).1.tallied.covers (victim_some hvictim).1

/-- After any accountable calls on an open store. -/
theorem accounts_of_accountable (env : Nat → Bool) {cfg : KvConfig} {store : KvStore}
    (hopen : kvOpen cfg = .ok store) {calls : List Call}
    (hsafe : Run.Guarded (World.step env) Accountable (World.opened store) calls) :
    Run.Always (World.step env) (Accounts env) (World.opened store) calls ∧
      BudgetKept env (World.opened store) calls := by
  have htallied : Run.Always (World.step env) (fun w => Tallied w.store) (World.opened store)
      calls := by
    refine Run.always_of_guarded ?_ (tallied_opened hopen) hsafe
    exact fun w call w' hw hcall hstep => Tallied.step hw hcall hstep
  refine ⟨htallied.imp fun w hw => Tallied.accounts env hw, ?_⟩
  intro done h token w1 w2 hdone hexec happend
  have hw1 : Tallied w1.store :=
    htallied done w1 ((List.prefix_append _ _).trans hdone) hexec
  exact (hw1.sequenceAppend (hsafe done _ w1 hdone hexec) happend).2 rfl

theorem accounts_twoPages :
    Run.Always (World.step fun _ => true) (Accounts fun _ => true)
        (World.opened (.opened tinyConfig))
        [.sequenceInit, .append 0 7, .pageAcquire 0 0 0 .host, .append 0 8] ∧
      BudgetKept (fun _ => true) (World.opened (.opened tinyConfig))
        [.sequenceInit, .append 0 7, .pageAcquire 0 0 0 .host, .append 0 8] := by
  have hopen : kvOpen tinyConfig = .ok (.opened tinyConfig) := rfl
  exact accounts_of_accountable _ hopen (Run.guarded_of_check (by decide +kernel))

/-- The page that an acquisition hands to the device is not counted there. -/
theorem accounts_retiered :
    ¬ ∀ (env : Nat → Bool) (cfg : KvConfig) (store : KvStore) (calls : List Call),
      kvOpen cfg = .ok store →
      Run.Guarded (World.step env) Legal (World.opened store) calls →
      Run.Always (World.step env) (Accounts env) (World.opened store) calls ∧
        BudgetKept env (World.opened store) calls := by
  intro hclaim
  have hlegal : Run.Guarded (World.step fun _ => true) Legal (World.opened (.opened tinyConfig))
      [.sequenceInit, .append 0 7, .pageAcquire 0 0 0 .device] :=
    Run.guarded_of_check (by decide +kernel)
  have hend : ((Run.exec (World.step fun _ => true) (World.opened (.opened tinyConfig))
      [.sequenceInit, .append 0 7, .pageAcquire 0 0 0 .device]).map
        fun w => (w.store.stats.deviceBytes, deviceSum w.store)) = some (0, 1) := by
    decide +kernel
  obtain ⟨w, hexec, hcounts⟩ := Option.map_eq_some_iff.1 hend
  have hdevice := ((hclaim _ tinyConfig _ _ rfl hlegal).1 _ w (List.prefix_refl _) hexec).device
  obtain ⟨hbytes, hsum⟩ := Prod.mk.inj hcounts
  rw [hbytes, hsum] at hdevice
  cases hdevice

end VgEngine.KvCache
