import VgEngine.TensorSource.Sound
import VgEngine.Gguf.Write
import VgEngine.Lib.Run

/-! The pin discipline of the tensor source. It holds along a run exactly when every
release finds the entry that its lease is on; the position that a hit hands out as
ticket stops being the ticket of the entry once an eviction has moved the entries. -/
namespace VgEngine.TensorSource
open Gguf Keyed

variable {file : Handle} {st : State} {leases : List Lease}

theorem evictFor_frame (st : State) (need : Nat) :
    (evictFor st need).source.cfg = st.source.cfg ∧
      ∀ e ∈ (evictFor st need).source.entries, e ∈ st.source.entries := by
  obtain ⟨left, evictions, hsource, hleft⟩ := evictFor_source st need
  rw [hsource]
  exact ⟨rfl, fun e he => hleft.mem he⟩

theorem reserveEntry_some {reallocOk : Bool} {st st' : State}
    (h : reserveEntry reallocOk st = some st') : st'.source.entries = st.source.entries ∧
      st'.memory = st.memory ∧ st'.source.cfg = st.source.cfg ∧ st'.source.file = st.source.file := by
  unfold reserveEntry at h
  split at h
  · split at h
    · obtain rfl := Option.some.inj h
      exact ⟨rfl, rfl, rfl, rfl⟩
    · simp at h
  · obtain rfl := Option.some.inj h
    exact ⟨rfl, rfl, rfl, rfl⟩

/-- What holds after an acquire that ended in `r`. -/
def After (file : Handle) (leases : List Lease) (r : Except Status Lease × State) : Prop :=
  match r.1 with
  | .ok l => Sound file r.2 (leases ++ [l])
  | .error _ => Sound file r.2 leases

theorem Sound.mapping (h : Sound file st leases) {l : Lease} {o : Nat} (hdata : l.data = .mapping o)
    (hticket : l.ticket = 0) : Sound file st (leases ++ [l]) := by
  have hheld : ∀ b, held (leases ++ [l]) b = held leases b := by
    intro b
    simp [held_append, hdata]
  refine ⟨h.sameFile, h.distinct, h.owns, h.live, ?_, ?_, h.tier, ?_⟩
  · intro e he
    rw [hheld]
    exact h.refs e he
  · intro e he
    rw [hheld]
    exact h.age e he
  · intro x hx
    rcases List.mem_append.1 hx with hx | hx
    · have hsound := h.lease x hx
      unfold LeaseSound at hsound ⊢
      simp only [hheld]
      exact hsound
    · obtain rfl := List.mem_singleton.1 hx
      unfold LeaseSound
      rw [hdata]
      exact hticket

theorem Sound.place {tensor block n : Nat} {desired : Tier} {reallocOk : Bool}
    (h : Sound file st (leases ++ [⟨tensor, .block block, n, desired, 0, false⟩]))
    (hfree : ∀ e ∈ st.source.entries, e.data ≠ block)
    (htier : ¬ (desired = .storage ∧ st.source.cfg.useMmap = true)) :
    After file leases (place st tensor block n desired reallocOk) := by
  unfold TensorSource.place
  dsimp only
  split
  · -- the tensor goes into the cache
    obtain ⟨hcfg, hsub⟩ := evictFor_frame st n
    have hev := h.evictFor n
    have hfree' : ∀ e ∈ (TensorSource.evictFor st n).source.entries, e.data ≠ block :=
      fun e he => hfree e (hsub e he)
    have hout : ∀ e ∈ (TensorSource.evictFor st n).source.entries,
        (⟨tensor, .block block, n, desired, 0, false⟩ : Lease).data ≠ .block e.data :=
      fun e he heq => hfree' e he (Data.block.inj heq).symm
    split
    · exact hev.dropLast rfl hout fun b hb => if_neg fun heq => hb (by rw [heq])
    · rename_i st' hreserve
      obtain ⟨hentries, hmemory, hcfg', hfile⟩ := reserveEntry_some hreserve
      have hlease := hev.lease _ (List.mem_append_right _ (List.mem_singleton_self _))
      unfold LeaseSound at hlease
      obtain ⟨hlt, hcell, -, hwhere⟩ := hlease
      have hnone : held leases block = 0 := by
        rcases hwhere with ⟨e, he, heq, -⟩ | ⟨-, hone, -⟩
        · exact absurd heq (hfree' e he)
        · rw [held_append, if_pos rfl] at hone
          omega
      have hdrop : Sound file (TensorSource.evictFor st n) leases :=
        hev.dropLast rfl hout fun _ _ => rfl
      have hst' : Sound file st' leases := hdrop.of_eq hentries hmemory hcfg' ⟨_, hfile⟩
      have hpush := hst'.push
        (l := ⟨tensor, .block block, n, desired, inc64 st'.source.nextTicket, false⟩)
        (e := ⟨tensor, block, n, 1, inc64 st'.source.clock, inc64 st'.source.nextTicket, desired, true⟩)
        rfl (by rw [hentries]; exact hfree') hnone (by rw [hmemory]; exact ⟨hlt, hcell⟩) rfl rfl rfl
        rfl rfl (by rw [hcfg', hcfg]; exact fun hmmap hs => htier ⟨hs, hmmap⟩)
      exact hpush.of_eq rfl rfl rfl ⟨_, rfl⟩
  · -- a transient lease on a block of its own
    exact h.of_eq rfl rfl rfl ⟨_, rfl⟩

theorem content_eq {h : Handle} {mapped directIo : Bool} {tensor : Nat} {t : GgufTensor}
    (ht : h.index.tensorList[tensor]? = some t) :
    content h tensor = payload { h with mapped := mapped, directIo := directIo } t := by
  unfold content
  rw [ht]
  rfl

theorem Sound.load (h : Sound file st leases) {tensor : Nat} {t : GgufTensor} {desired : Tier}
    {o : Outcome} (ht : file.index.tensorList[tensor]? = some t)
    (htier : ¬ (desired = .storage ∧ st.source.cfg.useMmap = true)) :
    After file leases (load st tensor t desired o) := by
  obtain ⟨mapped, hread⟩ := ggufRead_handle o.read st.source.file t 0 t.nbytes
  obtain ⟨mapped₀, directIo, hfile⟩ := h.sameFile
  unfold TensorSource.load
  split
  · exact h
  · dsimp only
    rw [hread]
    have hst : Sound file { st with source := { st.source with
        file := { st.source.file with mapped := mapped } } } leases :=
      h.of_eq rfl rfl rfl ⟨mapped, rfl⟩
    cases hresult : (ggufRead o.read st.source.file t 0 t.nbytes).1 with
    | error status => exact hst
    | ok bytes =>
      have hbytes : bytes = content file tensor := by
        rw [ggufRead_ok hresult, hfile, ← content_eq ht]
      have halloc := hst.alloc (l := ⟨tensor, .block st.memory.next, t.nbytes, desired, 0, false⟩)
        rfl rfl rfl
      have hout : ∀ e ∈ st.source.entries, e.data ≠ st.memory.next := fun e he =>
        (h.live e he).1.ne
      dsimp only at halloc ⊢
      rw [hbytes]
      split
      · exact halloc.dropLast rfl (fun e he heq => hout e he (Data.block.inj heq).symm)
          fun b hb => if_neg fun heq => hb (by rw [heq])
      · exact halloc.place hout htier

theorem Sound.miss (h : Sound file st leases) {tensor : Nat} {t : GgufTensor} {desired : Tier}
    {o : Outcome} (ht : file.index.tensorList[tensor]? = some t) :
    After file leases (miss st tensor t desired o) := by
  have hcount : Sound file st.countMiss leases := h.of_eq rfl rfl rfl ⟨_, rfl⟩
  unfold TensorSource.miss
  dsimp only
  split
  · have hmap : Sound file (st.countMiss.mapFile o.map2) leases := hcount.of_eq rfl rfl rfl ⟨_, rfl⟩
    split
    · exact hmap.mapping rfl rfl
    · exact hmap
  · rename_i htier
    exact hcount.load ht htier

theorem findEntry_some {entries : List CacheEntry} {tensor i : Nat} {tier : Tier}
    (h : findEntry entries tensor tier = some i) :
    ∃ e, entries[i]? = some e ∧ e.tensor = tensor ∧ e.tier = tier := by
  unfold findEntry at h
  obtain ⟨hlt, hfound, -⟩ := List.findIdx?_eq_some_iff_getElem.1 h
  exact ⟨entries[i], List.getElem?_eq_getElem hlt, by simpa using hfound⟩

theorem held_hit (st : State) (leases : List Lease) (tensor i : Nat) (e : CacheEntry) :
    held (leases ++ [(hit st tensor i e).1]) e.data = held leases e.data + 1 := by
  have hdata : (hit st tensor i e).1.data = .block e.data := rfl
  rw [held_append, if_pos hdata]

/-- A hit counts one more lease, unless the counter wraps. -/
theorem Sound.hit (h : Sound file st leases) {tensor i : Nat} {e : CacheEntry}
    (he : st.source.entries[i]? = some e) (htensor : e.tensor = tensor)
    (hwrap : e.refs + 1 < 2 ^ 64) :
    Sound file (hit st tensor i e).2 (leases ++ [(hit st tensor i e).1]) := by
  have hrefs := h.refs e (List.mem_of_getElem? he)
  have hdata : (TensorSource.hit st tensor i e).1.data = .block e.data := rfl
  have hcount := held_hit st leases tensor i e
  have htouch := h.touch (leases ++ [(TensorSource.hit st tensor i e).1]) he
    (f := fun x => { x with refs := inc64 x.refs, age := inc64 st.source.clock })
    (fun x => ⟨rfl, rfl, rfl, rfl⟩)
    (by
      rw [hcount, ← hrefs]
      exact Nat.mod_eq_of_lt hwrap)
    (by omega)
    (by
      intro b hb
      rw [held_append, hdata, if_neg fun heq => hb (Data.block.inj heq).symm, Nat.add_zero])
    (by
      intro l hl
      rcases List.mem_append.1 hl with hl | hl
      · exact Or.inl hl
      · obtain rfl := List.mem_singleton.1 hl
        exact Or.inr ⟨rfl, htensor.symm, rfl⟩)
  exact htouch.of_eq rfl rfl rfl ⟨_, rfl⟩

theorem Sound.lookup (h : Sound file st leases) {tensor : Nat} {t : GgufTensor} {desired : Tier}
    {o : Outcome} (ht : file.index.tensorList[tensor]? = some t)
    (hwrap : ∀ i e, findEntry st.source.entries tensor desired = some i →
      st.source.entries[i]? = some e → e.refs + 1 < 2 ^ 64) :
    After file leases (lookup st tensor t desired o) := by
  have hcount : Sound file st.countLookup leases := h.of_eq rfl rfl rfl ⟨_, rfl⟩
  unfold TensorSource.lookup
  dsimp only
  split
  · exact hcount.miss ht
  · rename_i i hfind
    obtain ⟨e, he, htensor, -⟩ := findEntry_some hfind
    rw [he]
    have hhit := hcount.hit he htensor (hwrap i e hfind he)
    exact hhit.of_eq rfl rfl rfl ⟨_, rfl⟩

theorem Sound.acquire (h : Sound file st leases) {name : List UInt8} {desired : Tier} {o : Outcome}
    (hwrap : ∀ tensor t i e, findTensor st.source.file.index name = some (tensor, t) →
      findEntry st.source.entries tensor desired = some i → st.source.entries[i]? = some e →
      e.refs + 1 < 2 ^ 64) :
    After file leases (acquire st name desired o) := by
  unfold TensorSource.acquire
  split
  · exact h
  · rename_i tensor t hfind
    have ht : file.index.tensorList[tensor]? = some t := by
      obtain ⟨mapped, directIo, hfile⟩ := h.sameFile
      have := findTensor_getElem hfind
      rwa [hfile] at this
    split
    · have hmap : Sound file (st.countLookup.mapFile o.map1) leases :=
        h.of_eq rfl rfl rfl ⟨_, rfl⟩
      dsimp only
      split
      · have hlease := hmap.mapping (l := storageLease (st.countLookup.mapFile o.map1).source.file
          tensor t) rfl rfl
        exact hlease.of_eq rfl rfl rfl ⟨_, rfl⟩
      · exact hmap.lookup ht fun i e hi he => hwrap tensor t i e hfind hi he
    · exact h.lookup ht fun i e hi he => hwrap tensor t i e hfind hi he

/-- What the cache promises to the holders of its leases. -/
structure PinDiscipline (file : Handle) (w : World) : Prop where
  refs : ∀ e ∈ w.source.entries, e.refs = held w.leases e.data
  kept : ∀ l ∈ w.leases, l.ticket ≠ 0 → ∃ e ∈ w.source.entries, l.data = .block e.data ∧
    e.tensor = l.tensor ∧ w.memory.cells e.data = some (content file l.tensor)
  evictable : ∀ e ∈ w.source.entries, held w.leases e.data = 0 → victim [e] = some 0

/-- An acquire that hits must not wrap the count of the entry. A release of a lease on
an entry must find that entry by the ticket and the tensor of the lease; and when it
leaves the entry without leases, the stamp of the entry is not the last one. -/
def FindsEntry (w : World) : Call → Prop
  | .acquire name desired _ => ∀ tensor t i e,
      findTensor w.source.file.index name = some (tensor, t) →
      findEntry w.source.entries tensor desired = some i → w.source.entries[i]? = some e →
      e.refs + 1 < 2 ^ 64
  | .release i => ∀ l e, w.leases[i]? = some l → e ∈ w.source.entries → l.data = .block e.data →
      l.ticket ≠ 0 ∧
      (∃ j, w.source.entries.findIdx? (ticketMatches l) = some j ∧ w.source.entries[j]? = some e) ∧
      (held w.leases e.data = 1 → e.age < 2 ^ 64 - 1)

theorem victim_singleton (e : CacheEntry) :
    victim [e] = some 0 ↔ e.owns = true ∧ e.refs = 0 ∧ e.age < 2 ^ 64 - 1 := by
  unfold victim victimFrom victimFrom
  split <;> simp_all

theorem Sound.pinDiscipline {w : World} (h : Sound file w.toState w.leases) :
    PinDiscipline file w where
  refs := h.refs
  kept := by
    intro l hl hticket
    have hsound := h.lease l hl
    unfold LeaseSound at hsound
    cases hdata : l.data with
    | mapping o =>
      rw [hdata] at hsound
      exact absurd hsound hticket
    | block b =>
      rw [hdata] at hsound
      obtain ⟨-, hcell, -, ⟨e, he, rfl, htensor⟩ | ⟨hzero, -⟩⟩ := hsound
      · exact ⟨e, he, rfl, htensor, hcell⟩
      · exact absurd hzero hticket
  evictable := by
    intro e he hnone
    rw [victim_singleton]
    exact ⟨h.owns e he, (h.refs e he).trans hnone, h.age e he hnone⟩

/-- A lease that is not on an entry is transient, or on the mapping. -/
theorem Sound.release_other (h : Sound file st leases) {i : Nat} {l : Lease}
    (hl : leases[i]? = some l) (hout : ∀ e ∈ st.source.entries, l.data ≠ .block e.data) :
    Sound file (release st l) (leases.eraseIdx i) := by
  have hsound := h.lease l (List.mem_of_getElem? hl)
  unfold LeaseSound at hsound
  unfold TensorSource.release
  cases hdata : l.data with
  | mapping o =>
    rw [hdata] at hsound
    rw [if_neg (not_not.2 hsound)]
    exact h.drop hl rfl hout fun _ _ => rfl
  | block b =>
    rw [hdata] at hsound
    obtain ⟨-, -, hmapped, ⟨e, he, rfl, -⟩ | ⟨hticket, -⟩⟩ := hsound
    · exact absurd hdata (hout e he)
    · rw [if_neg (not_not.2 hticket), hmapped]
      exact h.drop hl rfl hout
        fun c hc => if_neg fun heq => hc (by rw [hdata, heq])

/-- A lease on an entry is counted down when the release finds the entry. -/
theorem Sound.release_entry (h : Sound file st leases) {i j : Nat} {l : Lease} {e : CacheEntry}
    (hl : leases[i]? = some l) (hdata : l.data = .block e.data) (hticket : l.ticket ≠ 0)
    (hfind : st.source.entries.findIdx? (ticketMatches l) = some j)
    (he : st.source.entries[j]? = some e) (hage : held leases e.data = 1 → e.age < 2 ^ 64 - 1) :
    Sound file (release st l) (leases.eraseIdx i) := by
  have hcount := held_eraseIdx hl e.data
  rw [if_pos hdata] at hcount
  have hrefs := h.refs e (List.mem_of_getElem? he)
  unfold TensorSource.release
  rw [if_pos hticket, hfind]
  refine h.touch (leases.eraseIdx i) he (fun x => ⟨rfl, rfl, rfl, rfl⟩) ?_ ?_ ?_ ?_
  · dsimp only
    omega
  · intro hzero
    exact hage (by omega)
  · intro b hb
    rw [held_eraseIdx hl b, hdata, if_neg fun heq => hb (Data.block.inj heq).symm, Nat.add_zero]
  · exact fun x hx => Or.inl (List.mem_of_mem_eraseIdx hx)

theorem Sound.call {w : World} (h : Sound file w.toState w.leases) {c : Call}
    (hfinds : FindsEntry w c) : Sound file (w.call c).toState (w.call c).leases := by
  cases c with
  | acquire name desired o =>
    have hafter : After file w.leases (TensorSource.acquire w.toState name desired o) :=
      h.acquire hfinds
    unfold World.call
    dsimp only
    generalize TensorSource.acquire w.toState name desired o = r at hafter ⊢
    rcases r with ⟨status | l, st⟩
    · exact hafter
    · exact hafter
  | release i =>
    unfold World.call
    dsimp only
    cases hl : w.leases[i]? with
    | none => exact h
    | some l =>
      by_cases hon : ∃ e ∈ w.source.entries, l.data = .block e.data
      · obtain ⟨e, he, hdata⟩ := hon
        obtain ⟨hticket, ⟨j, hfind, hj⟩, hage⟩ := hfinds l e hl he hdata
        exact h.release_entry hl hdata hticket hfind hj hage
      · exact h.release_other hl fun e he hdata => hon ⟨e, he, hdata⟩

/-- A hit that wraps the count leaves it at zero, against the leases. -/
theorem Sound.acquire_needs {w : World} (h : Sound file w.toState w.leases) {name : List UInt8}
    {desired : Tier} {o : Outcome} (hP : PinDiscipline file (w.call (.acquire name desired o))) :
    FindsEntry w (.acquire name desired o) := by
  intro tensor t i e hfind hentry he
  obtain ⟨e', he', -, htier⟩ := findEntry_some hentry
  obtain rfl : e = e' := Option.some.inj (he.symm.trans he')
  have hmem := List.mem_of_getElem? he
  have hmmap : ¬ (desired = .storage ∧ w.source.cfg.useMmap = true) := by
    rintro ⟨hdesired, hmmap⟩
    exact h.tier hmmap e hmem (htier.trans hdesired)
  have hacquire : TensorSource.acquire w.toState name desired o =
      (.ok (TensorSource.hit w.toState.countLookup tensor i e).1,
        (TensorSource.hit w.toState.countLookup tensor i e).2.countHit) := by
    unfold TensorSource.acquire TensorSource.lookup
    rw [hfind]
    dsimp only
    rw [if_neg hmmap]
    dsimp only [State.countLookup]
    rw [hentry]
    dsimp only
    rw [he]
  unfold World.call at hP
  dsimp only at hP
  rw [hacquire] at hP
  have hentries : { e with refs := inc64 e.refs, age := inc64 w.source.clock } ∈
      w.source.entries.modify i fun x =>
        { x with refs := inc64 x.refs, age := inc64 w.source.clock } := by
    rw [modify_eq_map h.distinct he]
    exact List.mem_map.2 ⟨e, hmem, if_pos rfl⟩
  have hrefs := hP.refs _ hentries
  have hcount := held_hit w.toState.countLookup w.leases tensor i e
  dsimp only at hrefs
  rw [hcount, ← h.refs e hmem] at hrefs
  have hlt : inc64 e.refs < 2 ^ 64 := Nat.mod_lt _ (by decide)
  omega

/-- A release that misses the entry of its lease leaves a count that is too high. -/
theorem Sound.release_needs {w : World} (h : Sound file w.toState w.leases) {i : Nat}
    (hP : PinDiscipline file (w.call (.release i))) : FindsEntry w (.release i) := by
  intro l e hl he hdata
  unfold World.call at hP
  simp only [hl] at hP
  have hcount := held_eraseIdx hl e.data
  rw [if_pos hdata] at hcount
  have hrefs := h.refs e he
  -- an entry that the release does not touch still counts the lease
  have hstays : e ∉ (TensorSource.release w.toState l).source.entries := by
    intro hmem
    have hafter := hP.refs e hmem
    dsimp only at hafter
    omega
  unfold TensorSource.release at hP hstays
  by_cases hticket : l.ticket = 0
  · rw [if_neg (not_not.2 hticket), hdata] at hstays
    dsimp only at hstays
    split at hstays <;> exact absurd he hstays
  · rw [if_pos hticket] at hP hstays
    cases hfind : w.source.entries.findIdx? (ticketMatches l) with
    | none =>
      rw [hfind] at hstays
      exact absurd he hstays
    | some j =>
      rw [hfind] at hP hstays
      obtain ⟨hlt, -⟩ := List.findIdx?_eq_some_iff_getElem.1 hfind
      have hj : w.source.entries[j]? = some w.source.entries[j] := List.getElem?_eq_getElem hlt
      dsimp only at hP hstays
      rw [modify_eq_map h.distinct hj] at hP hstays
      have hsame : e.data = w.source.entries[j].data := by
        by_contra hne
        exact hstays (List.mem_map.2 ⟨e, he, if_neg hne⟩)
      have hfound : e = w.source.entries[j] :=
        List.inj_on_of_nodup_map h.distinct he (List.getElem_mem hlt) hsame
      refine ⟨hticket, ⟨j, rfl, by rw [hj, hfound]⟩, ?_⟩
      intro hone
      have hafter := hP.evictable { e with refs := e.refs - 1 }
        (List.mem_map.2 ⟨e, he, if_pos hsame⟩) (by dsimp only; omega)
      exact ((victim_singleton _).1 hafter).2.2

/-- The pin discipline holds in every state of a run of a freshly opened source exactly
when every call of the run finds the entry it is about. -/
theorem pinDiscipline_iff (file : Handle) (cfg : Option Config) (calls : List Call) :
    Run.Always World.step (PinDiscipline file) (World.opened file cfg) calls ↔
      Run.Guarded World.step FindsEntry (World.opened file cfg) calls := by
  refine Run.always_iff_guarded (I := fun _ w => Sound file w.toState w.leases) calls.length
    (n := 0) ?_ ?_ ?_ ?_ (sound_opened file cfg) (by omega)
  · exact fun _ w h => h.pinDiscipline
  · rintro _ w c w' - h hfinds hstep
    obtain rfl := Option.some.inj hstep
    exact h.call hfinds
  · rintro _ w c w' - h hstep hP
    obtain rfl := Option.some.inj hstep
    cases c with
    | acquire name desired o => exact h.acquire_needs hP
    | release i => exact h.release_needs hP
  · intro _ w c _ hstep
    cases hstep

theorem exec_step (w : World) (calls : List Call) :
    Run.exec World.step w calls = some (calls.foldl World.call w) := by
  induction calls generalizing w with
  | nil => rfl
  | cons c calls ih => exact ih (w.call c)

/-- Three F32 tensors of 32 bytes. -/
def threeTensors : FixFile where
  metas := []
  tensors := [⟨[97], [8], 0, List.replicate 32 1⟩, ⟨[98], [8], 0, List.replicate 32 2⟩,
    ⟨[99], [8], 0, List.replicate 32 3⟩]

def threeGguf : GgufFile := ⟨writeFile threeTensors, by decide +kernel, by decide +kernel⟩

def threeHandle : Handle where
  index := match parseIndex plainLibc threeGguf with
    | .ok g => g
    | .error e => e.2
  file := threeGguf
  mapped := false
  directIo := false

def smooth : Outcome := ⟨true, true, true, ⟨true, true, true, 2 ^ 20⟩, true⟩

/-- The budget holds two tensors, so the third evicts the first, and the second moves to
the front. A hit on it then hands out ticket 1 where the entry has ticket 2. -/
def leakCalls : List Call :=
  [.acquire [97] .host smooth, .acquire [98] .host smooth, .release 0, .release 0,
    .acquire [99] .host smooth, .acquire [98] .host smooth, .release 1]

/-- After the last release the entry is still counted as pinned, for ever. -/
theorem pinDiscipline_leaks :
    ¬ ∀ (file : Handle) (cfg : Option Config) (calls : List Call),
      Run.Always World.step (PinDiscipline file) (World.opened file cfg) calls := by
  intro hclaim
  have hend := hclaim threeHandle (some ⟨64, 0, 0, false, false⟩) leakCalls leakCalls _
    (List.prefix_refl _) (exec_step _ _)
  have hleak : (leakCalls.foldl World.call
      (World.opened threeHandle (some ⟨64, 0, 0, false, false⟩))).source.entries.any (fun e =>
        e.refs != held (leakCalls.foldl World.call
          (World.opened threeHandle (some ⟨64, 0, 0, false, false⟩))).leases e.data) = true := by
    decide +kernel
  obtain ⟨e, he, hne⟩ := List.any_eq_true.1 hleak
  exact absurd (hend.refs e he) (by simpa using hne)

end VgEngine.TensorSource
