import VgEngine.TensorSource.Spared

/-! The invariant of the tensor source, and what each part of a call does to it.
While a block is being placed it is held by a transient lease. -/
namespace VgEngine.TensorSource
open Gguf Keyed

/-- The number of leases that point at a block. -/
def held (leases : List Lease) (block : Nat) : Nat := leases.countP fun l => l.data == .block block

/-- The bytes of a tensor in the file. -/
def content (file : Handle) (tensor : Nat) : List UInt8 :=
  match file.index.tensorList[tensor]? with
  | none => []
  | some t => payload file t

/-- A lease on a block of the cache, or on a block of its own, or on the mapping. -/
def LeaseSound (file : Handle) (st : State) (leases : List Lease) (l : Lease) : Prop :=
  match l.data with
  | .mapping _ => l.ticket = 0
  | .block b => b < st.memory.next ∧ st.memory.cells b = some (content file l.tensor) ∧
      l.mapped = false ∧ ((∃ e ∈ st.source.entries, e.data = b ∧ e.tensor = l.tensor) ∨
        (l.ticket = 0 ∧ held leases b = 1 ∧ ∀ e ∈ st.source.entries, e.data ≠ b))

structure Sound (file : Handle) (st : State) (leases : List Lease) : Prop where
  sameFile : ∃ mapped directIo, st.source.file = { file with mapped := mapped, directIo := directIo }
  distinct : (st.source.entries.map CacheEntry.data).Nodup
  owns : ∀ e ∈ st.source.entries, e.owns = true
  live : ∀ e ∈ st.source.entries, e.data < st.memory.next ∧
    st.memory.cells e.data = some (content file e.tensor)
  refs : ∀ e ∈ st.source.entries, e.refs = held leases e.data
  age : ∀ e ∈ st.source.entries, held leases e.data = 0 → e.age < 2 ^ 64 - 1
  tier : st.source.cfg.useMmap = true → ∀ e ∈ st.source.entries, e.tier ≠ .storage
  lease : ∀ l ∈ leases, LeaseSound file st leases l

variable {file : Handle} {st st' : State} {leases : List Lease}

theorem Sound.of_eq (h : Sound file st leases) (hentries : st'.source.entries = st.source.entries)
    (hmemory : st'.memory = st.memory) (hcfg : st'.source.cfg = st.source.cfg)
    (hfile : ∃ mapped, st'.source.file = { st.source.file with mapped := mapped }) :
    Sound file st' leases := by
  obtain ⟨mapped, hmapped⟩ := hfile
  obtain ⟨mapped₀, directIo, hfile⟩ := h.sameFile
  refine ⟨⟨mapped, directIo, by rw [hmapped, hfile]⟩, ?_, ?_, ?_, ?_, ?_, ?_, ?_⟩
  · rw [hentries]; exact h.distinct
  · rw [hentries]; exact h.owns
  · rw [hentries, hmemory]; exact h.live
  · rw [hentries]; exact h.refs
  · rw [hentries]; exact h.age
  · rw [hentries, hcfg]; exact h.tier
  · intro l hl
    have hsound := h.lease l hl
    unfold LeaseSound at hsound ⊢
    rw [hentries, hmemory]
    exact hsound

theorem sound_opened (file : Handle) (cfg : Option Config) :
    Sound file ⟨Source.opened file cfg, .empty⟩ [] where
  sameFile := ⟨_, _, rfl⟩
  distinct := List.nodup_nil
  owns := by simp [Source.opened]
  live := by simp [Source.opened]
  refs := by simp [Source.opened]
  age := by simp [Source.opened]
  tier := by simp [Source.opened]
  lease := by simp

theorem held_append (leases : List Lease) (l : Lease) (b : Nat) :
    held (leases ++ [l]) b = held leases b + if l.data = .block b then 1 else 0 := by
  simp [held, List.countP_append, List.countP_cons]

theorem held_eraseIdx {i : Nat} {l : Lease} (h : leases[i]? = some l) (b : Nat) :
    held leases b = held (leases.eraseIdx i) b + if l.data = .block b then 1 else 0 := by
  induction leases generalizing i with
  | nil => simp at h
  | cons x leases ih =>
    cases i with
    | zero =>
      obtain rfl : x = l := by simpa using h
      simp [held, List.countP_cons]
    | succ i =>
      have hrest := ih (i := i) (by simpa using h)
      simp only [held, List.eraseIdx_cons_succ, List.countP_cons] at hrest ⊢
      omega

theorem held_pos {l : Lease} {b : Nat} (hl : l ∈ leases) (hb : l.data = .block b) :
    0 < held leases b :=
  List.countP_pos_iff.2 ⟨l, hl, by simp [hb]⟩

/-- The source with another list of entries. -/
def State.withEntries (st : State) (entries : List CacheEntry) : State :=
  { st with source := { st.source with entries := entries } }

/-- An entry is touched while the leases on its block, and on no other, change. -/
theorem Sound.touch (h : Sound file st leases) (leases' : List Lease) {i : Nat} {e : CacheEntry}
    (he : st.source.entries[i]? = some e) {f : CacheEntry → CacheEntry}
    (hf : ∀ x, (f x).data = x.data ∧ (f x).tensor = x.tensor ∧ (f x).owns = x.owns ∧
      (f x).tier = x.tier)
    (hrefs : (f e).refs = held leases' e.data)
    (hage : held leases' e.data = 0 → (f e).age < 2 ^ 64 - 1)
    (hother : ∀ b, b ≠ e.data → held leases' b = held leases b)
    (hleases : ∀ l ∈ leases', l ∈ leases ∨
      (l.data = .block e.data ∧ l.tensor = e.tensor ∧ l.mapped = false)) :
    Sound file (st.withEntries (st.source.entries.modify i f)) leases' := by
  have hmem := List.mem_of_getElem? he
  have huniq : ∀ x ∈ st.source.entries, x.data = e.data → x = e := fun x hx heq =>
    List.inj_on_of_nodup_map h.distinct hx hmem heq
  rw [modify_eq_map h.distinct he]
  -- every entry comes from one with the same block, tensor, ownership and tier
  have hfrom : ∀ y ∈ st.source.entries.map fun x => if x.data = e.data then f x else x,
      ∃ x ∈ st.source.entries, (y.data = x.data ∧ y.tensor = x.tensor ∧ y.owns = x.owns ∧
        y.tier = x.tier) ∧ (x = e ∧ y = f e ∨ x.data ≠ e.data ∧ y = x) := by
    intro y hy
    obtain ⟨x, hx, rfl⟩ := List.mem_map.1 hy
    refine ⟨x, hx, ?_⟩
    by_cases heq : x.data = e.data
    · rw [if_pos heq]
      exact ⟨hf x, Or.inl ⟨huniq x hx heq, by rw [huniq x hx heq]⟩⟩
    · rw [if_neg heq]
      exact ⟨⟨rfl, rfl, rfl, rfl⟩, Or.inr ⟨heq, rfl⟩⟩
  have hto : ∀ x ∈ st.source.entries, ∃ y ∈ st.source.entries.map fun x =>
      if x.data = e.data then f x else x, y.data = x.data ∧ y.tensor = x.tensor := by
    intro x hx
    refine ⟨_, List.mem_map_of_mem hx, ?_⟩
    split
    · exact ⟨(hf x).1, (hf x).2.1⟩
    · exact ⟨rfl, rfl⟩
  refine ⟨h.sameFile, ?_, ?_, ?_, ?_, ?_, ?_, ?_⟩
  · have hdata : (st.source.entries.map fun x => if x.data = e.data then f x else x).map
        CacheEntry.data = st.source.entries.map CacheEntry.data := by
      rw [List.map_map]
      apply List.map_congr_left
      intro x _
      dsimp only [Function.comp_apply]
      split
      · exact (hf x).1
      · rfl
    exact hdata ▸ h.distinct
  · intro y hy
    obtain ⟨x, hx, hsame, -⟩ := hfrom y hy
    rw [hsame.2.2.1]
    exact h.owns x hx
  · intro y hy
    obtain ⟨x, hx, hsame, -⟩ := hfrom y hy
    rw [hsame.1, hsame.2.1]
    exact h.live x hx
  · intro y hy
    obtain ⟨x, hx, hsame, ⟨rfl, rfl⟩ | ⟨hne, rfl⟩⟩ := hfrom y hy
    · rw [hsame.1]
      exact hrefs
    · rw [hother _ hne]
      exact h.refs _ hx
  · intro y hy hnone
    obtain ⟨x, hx, hsame, ⟨rfl, rfl⟩ | ⟨hne, rfl⟩⟩ := hfrom y hy
    · exact hage (by rw [← hsame.1]; exact hnone)
    · exact h.age _ hx (by rw [← hother _ hne]; exact hnone)
  · intro hmmap y hy
    obtain ⟨x, hx, hsame, -⟩ := hfrom y hy
    rw [hsame.2.2.2]
    exact h.tier hmmap x hx
  · intro l hl
    unfold LeaseSound
    rcases hleases l hl with hold | ⟨hdata, htensor, hmapped⟩
    · have hsound := h.lease l hold
      unfold LeaseSound at hsound
      cases hdata : l.data with
      | mapping o =>
        rw [hdata] at hsound
        exact hsound
      | block b =>
        rw [hdata] at hsound
        obtain ⟨hlt, hcell, hmapped, ⟨x, hx, hblock, htensor⟩ | ⟨hticket, hone, hnone⟩⟩ := hsound
        · obtain ⟨y, hy, hyd, hyt⟩ := hto x hx
          exact ⟨hlt, hcell, hmapped, Or.inl ⟨y, hy, hyd.trans hblock, hyt.trans htensor⟩⟩
        · refine ⟨hlt, hcell, hmapped, Or.inr ⟨hticket, ?_, ?_⟩⟩
          · rw [hother b fun heq => hnone e hmem heq.symm]
            exact hone
          · intro y hy
            obtain ⟨x, hx, hsame, -⟩ := hfrom y hy
            rw [hsame.1]
            exact hnone x hx
    · rw [hdata]
      obtain ⟨hlt, hcell⟩ := h.live e hmem
      obtain ⟨y, hy, hyd, hyt⟩ := hto e hmem
      exact ⟨hlt, by rw [htensor]; exact hcell, hmapped,
        Or.inl ⟨y, hy, hyd, hyt.trans htensor.symm⟩⟩

/-- An entry without leases can be dropped, and its block freed. -/
theorem Sound.removeEntry (h : Sound file st leases) {i : Nat} {e : CacheEntry}
    (he : st.source.entries[i]? = some e) (hnone : e.refs = 0) :
    Sound file (removeEntry st i) leases := by
  have hmem := List.mem_of_getElem? he
  have hunheld : held leases e.data = 0 := by rw [← h.refs e hmem, hnone]
  have hsub : ∀ x ∈ st.source.entries.filter (fun x => x.data ≠ e.data),
      x ∈ st.source.entries ∧ x.data ≠ e.data := by
    intro x hx
    simpa using hx
  unfold TensorSource.removeEntry
  rw [he]
  simp only [h.owns e hmem, if_true]
  rw [eraseIdx_eq_filter h.distinct he]
  refine ⟨h.sameFile, ?_, fun x hx => h.owns x (hsub x hx).1, ?_, fun x hx => h.refs x (hsub x hx).1,
    fun x hx => h.age x (hsub x hx).1, fun hmmap x hx => h.tier hmmap x (hsub x hx).1, ?_⟩
  · exact h.distinct.sublist (List.filter_sublist.map _)
  · intro x hx
    obtain ⟨hx, hne⟩ := hsub x hx
    simp only [Memory.free, if_neg hne]
    exact h.live x hx
  · intro l hl
    have hsound := h.lease l hl
    unfold LeaseSound at hsound ⊢
    cases hdata : l.data with
    | mapping o =>
      rw [hdata] at hsound
      exact hsound
    | block b =>
      rw [hdata] at hsound
      have hne : b ≠ e.data := by
        rintro rfl
        have := held_pos hl hdata
        omega
      obtain ⟨hlt, hcell, hmapped, hwhere⟩ := hsound
      simp only [Memory.free, if_neg hne]
      refine ⟨hlt, hcell, hmapped, ?_⟩
      rcases hwhere with ⟨x, hx, rfl, htensor⟩ | ⟨hticket, hone, hout⟩
      · exact Or.inl ⟨x, by simp [hx, hne], rfl, htensor⟩
      · exact Or.inr ⟨hticket, hone, fun x hx => hout x (hsub x hx).1⟩

theorem Sound.evictLoop (need fuel : Nat) (h : Sound file st leases) :
    Sound file (evictLoop fuel need st) leases := by
  induction fuel generalizing st with
  | zero => exact h
  | succ fuel ih =>
    unfold TensorSource.evictLoop
    split
    · cases hv : victim st.source.entries with
      | none => exact h
      | some v =>
        obtain ⟨e, he, hidle, -⟩ := victim_some hv
        exact ih (h.removeEntry he hidle.2.1)
    · exact h

theorem Sound.evictFor (h : Sound file st leases) (need : Nat) :
    Sound file (evictFor st need) leases := by
  unfold TensorSource.evictFor
  split
  · exact h
  · exact h.evictLoop need _

/-- A new block, held by a lease of its own. -/
theorem Sound.alloc (h : Sound file st leases) {l : Lease} (hdata : l.data = .block st.memory.next)
    (hmapped : l.mapped = false) (hticket : l.ticket = 0) :
    Sound file { st with memory := st.memory.alloc (content file l.tensor) } (leases ++ [l]) := by
  have hold : ∀ b, b < st.memory.next → held (leases ++ [l]) b = held leases b ∧
      (st.memory.alloc (content file l.tensor)).cells b = st.memory.cells b := by
    intro b hb
    rw [held_append, hdata, if_neg (by simp; omega)]
    exact ⟨rfl, if_neg (by omega)⟩
  have hfresh : held leases st.memory.next = 0 := by
    apply Nat.eq_zero_of_not_pos
    intro hpos
    obtain ⟨x, hx, hxd⟩ := List.countP_pos_iff.1 hpos
    have hsound := h.lease x hx
    unfold LeaseSound at hsound
    rw [of_decide_eq_true hxd] at hsound
    exact lt_irrefl _ hsound.1
  refine ⟨h.sameFile, h.distinct, h.owns, ?_, ?_, ?_, h.tier, ?_⟩
  · intro e he
    obtain ⟨hlt, hcell⟩ := h.live e he
    exact ⟨Nat.lt_succ_of_lt hlt, (hold _ hlt).2.trans hcell⟩
  · intro e he
    rw [(hold _ (h.live e he).1).1]
    exact h.refs e he
  · intro e he
    rw [(hold _ (h.live e he).1).1]
    exact h.age e he
  · intro x hx
    rcases List.mem_append.1 hx with hx | hx
    · have hsound := h.lease x hx
      unfold LeaseSound at hsound ⊢
      cases hxd : x.data with
      | mapping o =>
        rw [hxd] at hsound
        exact hsound
      | block b =>
        rw [hxd] at hsound
        obtain ⟨hlt, hcell, hm, hwhere⟩ := hsound
        refine ⟨Nat.lt_succ_of_lt hlt, (hold _ hlt).2.trans hcell, hm, ?_⟩
        rw [(hold _ hlt).1]
        exact hwhere
    · obtain rfl := List.mem_singleton.1 hx
      unfold LeaseSound
      rw [hdata]
      refine ⟨Nat.lt_succ_self _, if_pos rfl, hmapped, Or.inr ⟨hticket, ?_, ?_⟩⟩
      · rw [held_append, hfresh, if_pos hdata]
      · intro e he heq
        exact lt_irrefl _ (heq ▸ (h.live e he).1)

/-- Giving back a lease that is not on an entry, and with it the block it owns. -/
theorem Sound.drop (h : Sound file st leases) {i : Nat} {l : Lease} (hl : leases[i]? = some l)
    {memory : Memory (List UInt8)} (hnext : memory.next = st.memory.next)
    (hout : ∀ e ∈ st.source.entries, l.data ≠ .block e.data)
    (hcells : ∀ b, l.data ≠ .block b → memory.cells b = st.memory.cells b) :
    Sound file { st with memory := memory } (leases.eraseIdx i) := by
  have hheld : ∀ b, l.data ≠ .block b → held (leases.eraseIdx i) b = held leases b := by
    intro b hb
    rw [held_eraseIdx hl b, if_neg hb, Nat.add_zero]
  refine ⟨h.sameFile, h.distinct, h.owns, ?_, ?_, ?_, h.tier, ?_⟩
  · intro e he
    rw [hnext, hcells _ (hout e he)]
    exact h.live e he
  · intro e he
    rw [hheld _ (hout e he)]
    exact h.refs e he
  · intro e he
    rw [hheld _ (hout e he)]
    exact h.age e he
  · intro x hx
    have hxold := List.mem_of_mem_eraseIdx hx
    have hsound := h.lease x hxold
    unfold LeaseSound at hsound ⊢
    cases hxd : x.data with
    | mapping o =>
      rw [hxd] at hsound
      exact hsound
    | block b =>
      rw [hxd] at hsound
      obtain ⟨hlt, hcell, hm, hwhere⟩ := hsound
      -- the block of the dropped lease has no other lease on it
      have hne : l.data ≠ .block b := by
        intro hb
        have hcount := held_eraseIdx hl b
        have hpos := held_pos hx hxd
        rw [if_pos hb] at hcount
        rcases hwhere with ⟨e, he, rfl, -⟩ | ⟨-, hone, -⟩
        · exact hout e he hb
        · omega
      simp only [hnext, hcells b hne, hheld b hne]
      exact ⟨hlt, hcell, hm, hwhere⟩

/-- Giving back the lease that was taken last. -/
theorem Sound.dropLast {l : Lease} (h : Sound file st (leases ++ [l])) {memory : Memory (List UInt8)}
    (hnext : memory.next = st.memory.next) (hout : ∀ e ∈ st.source.entries, l.data ≠ .block e.data)
    (hcells : ∀ b, l.data ≠ .block b → memory.cells b = st.memory.cells b) :
    Sound file { st with memory := memory } leases := by
  have hlast : (leases ++ [l])[leases.length]? = some l := by simp
  have hdrop := h.drop hlast hnext hout hcells
  rwa [List.eraseIdx_append_of_length_le (le_refl _), Nat.sub_self, List.eraseIdx_cons_zero,
    List.append_nil] at hdrop

/-- The entry of a block takes the place of the lease that held it so far. -/
theorem Sound.push (h : Sound file st leases) {l : Lease} {b : Nat} (hl : l.data = .block b)
    (hfree : ∀ e ∈ st.source.entries, e.data ≠ b) (hnone : held leases b = 0)
    (hlive : b < st.memory.next ∧ st.memory.cells b = some (content file l.tensor))
    (hmapped : l.mapped = false) {e : CacheEntry} (hdata : e.data = b) (htensor : e.tensor = l.tensor)
    (howns : e.owns = true) (hrefs : e.refs = 1)
    (htier : st.source.cfg.useMmap = true → e.tier ≠ .storage) :
    Sound file (st.withEntries (st.source.entries ++ [e])) (leases ++ [l]) := by
  have hold : ∀ x ∈ st.source.entries, held (leases ++ [l]) x.data = held leases x.data := by
    intro x hx
    rw [held_append, hl, if_neg (by simpa using (hfree x hx).symm), Nat.add_zero]
  have hnew : held (leases ++ [l]) e.data = 1 := by
    rw [held_append, hdata, hnone, if_pos hl]
  have hcases : ∀ (P : CacheEntry → Prop), (∀ x ∈ st.source.entries, P x) → P e →
      ∀ x ∈ st.source.entries ++ [e], P x := by
    intro P hP hPe x hx
    rcases List.mem_append.1 hx with hx | hx
    · exact hP x hx
    · rw [List.mem_singleton.1 hx]
      exact hPe
  refine ⟨h.sameFile, ?_, hcases _ h.owns howns, hcases _ h.live ?_, hcases _ ?_ ?_, hcases _ ?_ ?_,
    fun hmmap => hcases _ (h.tier hmmap) (htier hmmap), ?_⟩
  · dsimp only [State.withEntries]
    rw [List.map_append, List.nodup_append]
    refine ⟨h.distinct, by simp, ?_⟩
    intro a ha b' hb'
    obtain ⟨x, hx, rfl⟩ := List.mem_map.1 ha
    rw [List.map_singleton, List.mem_singleton] at hb'
    rw [hb', hdata]
    exact hfree x hx
  · rw [hdata, htensor]
    exact hlive
  · exact fun x hx => (h.refs x hx).trans (hold x hx).symm
  · rw [hrefs, hnew]
  · intro x hx hzero
    exact h.age x hx (by rw [← hold x hx]; exact hzero)
  · intro hzero
    omega
  · intro x hx
    unfold LeaseSound
    rcases List.mem_append.1 hx with hx | hx
    · have hsound := h.lease x hx
      unfold LeaseSound at hsound
      cases hxd : x.data with
      | mapping o =>
        rw [hxd] at hsound
        exact hsound
      | block c =>
        rw [hxd] at hsound
        obtain ⟨hlt, hcell, hm, hwhere⟩ := hsound
        have hne : c ≠ b := by
          rintro rfl
          have := held_pos hx hxd
          omega
        refine ⟨hlt, hcell, hm, ?_⟩
        rcases hwhere with ⟨y, hy, hyd, hyt⟩ | ⟨hticket, hone, hout⟩
        · exact Or.inl ⟨y, List.mem_append_left _ hy, hyd, hyt⟩
        · refine Or.inr ⟨hticket, ?_, hcases _ hout (by rw [hdata]; exact hne.symm)⟩
          rw [held_append, hl, if_neg (by simpa using hne.symm)]
          exact hone
    · obtain rfl := List.mem_singleton.1 hx
      rw [hl]
      exact ⟨hlive.1, hlive.2, hmapped, Or.inl ⟨e, List.mem_append_right _ (by simp), hdata, htensor⟩⟩

end VgEngine.TensorSource
