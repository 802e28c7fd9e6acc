import VgEngine.KvCache.Slots

/-! What each call on a sequence preserves. -/
namespace VgEngine.KvCache

/-- The trees stay as they are, and no sequence is closed. -/
structure Kept (w w' : World) : Prop where
  radixes : w'.radixes = w.radixes
  live : ∀ k, (w.seq k).isSome → (w'.seq k).isSome

variable {env : Nat → Bool} {w w' : World} {extra : List Slot} {h : Nat} {q : KvSequence}

theorem seq_of_seqs (hseqs : w'.seqs = w.seqs) (k : Nat) : w'.seq k = w.seq k := by
  unfold World.seq
  rw [hseqs]

theorem Kept.refl (w : World) : Kept w w := ⟨rfl, fun _ hk => hk⟩

theorem Kept.trans {w'' : World} (h : Kept w w') (h' : Kept w' w'') : Kept w w'' :=
  ⟨h'.radixes.trans h.radixes, fun k hk => h'.live k (h.live k hk)⟩

theorem Frame.kept (h : Frame w w') : Kept w w' := by
  refine ⟨h.radixes, ?_⟩
  intro k hk
  rw [h.seq]
  exact hk

theorem Kept.ticks (w : World) (ticks : Nat) : Kept w { w with ticks := ticks } :=
  ⟨rfl, fun _ hk => hk⟩

theorem kept_setSeq (hlt : h < w.seqs.length) (q : KvSequence) : Kept w (w.setSeq h (some q)) := by
  refine ⟨rfl, ?_⟩
  intro k hk
  rw [seq_setSeq hlt]
  split
  · rfl
  · exact hk

theorem kept_addSeq (q : KvSequence) : Kept w (w.addSeq q).2 := by
  refine ⟨rfl, ?_⟩
  intro k hk
  unfold World.addSeq
  rw [seq_append]
  split
  · rfl
  · exact hk

/-- A new sequence takes slots over from the call under way. -/
theorem SeqSound.addSeq (hw : SeqSound w (q.pages ++ extra))
    (hlength : q.pages.length = World.pagesFor w.store.cfg q.tokens.length) :
    SeqSound (w.addSeq q).2 extra where
  tokens := hw.tokens
  pages := by
    apply hw.pages.perm
    unfold World.addSeq World.slots
    rw [List.flatMap_append, List.append_assoc]
    simp only [List.flatMap_cons, List.flatMap_nil, seqSlots, List.append_nil]
    exact List.Perm.refl _
  lengths := by
    intro k p hp
    unfold World.addSeq at hp
    rw [seq_append] at hp
    split at hp
    · rw [← Option.some.inj hp]
      exact hlength
    · exact hw.lengths k p hp
  room := hw.room

theorem pagesFor_zero {cfg : KvConfig} (htokens : 0 < cfg.pageTokens) :
    World.pagesFor cfg 0 = 0 :=
  Nat.div_eq_of_lt (by omega)

variable (env) in
theorem SeqSound.sequenceInit (hw : SeqSound w []) :
    SeqSound (w.sequenceInit env).2 [] ∧ Kept w (w.sequenceInit env).2 := by
  unfold World.sequenceInit World.ask
  dsimp only
  split
  · have hempty : SeqSound { w with ticks := w.ticks + 1 } (World.KvSequence.init.pages ++ []) :=
      hw.ticks _
    have hadd := hempty.addSeq (pagesFor_zero hw.tokens).symm
    exact ⟨hadd, (Kept.ticks w _).trans (kept_addSeq _)⟩
  · exact ⟨hw.ticks _, Kept.ticks w _⟩

/-- A change of the capacities alone. -/
theorem SeqSound.resize (hw : SeqSound w []) (hq : w.seq h = some q) {p : KvSequence}
    (hpages : p.pages = q.pages) (htokens : p.tokens = q.tokens) :
    SeqSound (w.setSeq h (some p)) [] := by
  apply hw.setSeq hq
  · rw [seqSlots, hpages]
  · intro p' hp'
    rw [← Option.some.inj hp', hpages, htokens]
    exact hw.lengths h q hq

variable (env) in
theorem reserve_ticks (w : World) (n cap first : Nat) :
    ∃ result ticks, w.reserve env n cap first = (result, { w with ticks := ticks }) := by
  unfold World.reserve
  split
  · exact ⟨_, w.ticks, rfl⟩
  · split
    · exact ⟨_, w.ticks, rfl⟩
    · exact ⟨_, w.ticks + 1, rfl⟩

/-- What `prepareAppend` leaves: the sequence with more capacity at most. -/
structure Prepared (w w' : World) (h : Nat) (q q' : KvSequence) : Prop where
  sound : SeqSound w' []
  kept : Kept w w'
  store : w'.store = w.store
  seq : w'.seq h = some q'
  tokens : q'.tokens = q.tokens
  pages : q'.pages = q.pages

theorem Prepared.resize {q' p : KvSequence} (hprep : Prepared w w' h q q') (ticks : Nat)
    (hpages : p.pages = q'.pages) (htokens : p.tokens = q'.tokens) :
    Prepared w ({ w' with ticks := ticks }.setSeq h (some p)) h q p := by
  have hlt : h < { w' with ticks := ticks }.seqs.length := seq_lt hprep.seq
  refine ⟨(hprep.sound.ticks ticks).resize hprep.seq hpages htokens, ?_, hprep.store, ?_,
    htokens.trans hprep.tokens, hpages.trans hprep.pages⟩
  · exact hprep.kept.trans ((Kept.ticks w' ticks).trans (kept_setSeq hlt p))
  · rw [seq_setSeq hlt, if_pos rfl]

variable (env) in
theorem prepareAppend_spec (hw : SeqSound w []) (hq : w.seq h = some q) :
    (∃ status w', w.prepareAppend env h q = (.error status, w') ∧ SeqSound w' [] ∧ Kept w w') ∨
    ∃ q' needed w', w.prepareAppend env h q = (.ok (q', needed), w') ∧ Prepared w w' h q q' ∧
      (needed = true ↔ q.pages.length ≤ q.tokens.length / w.store.cfg.pageTokens) := by
  have hself : Prepared w w h q q := ⟨hw, Kept.refl w, rfl, hq, rfl, rfl⟩
  obtain ⟨result, ticks, hreserve⟩ := reserve_ticks env w (q.tokens.length + 1) q.capacity 256
  unfold World.prepareAppend
  rw [hreserve]
  cases result with
  | error status => exact Or.inl ⟨status, _, rfl, hw.ticks _, Kept.ticks w _⟩
  | ok cap =>
    have hprep := hself.resize (p := { q with capacity := cap }) ticks rfl rfl
    dsimp only
    split
    · rename_i hlt
      exact Or.inr ⟨_, false, _, rfl, hprep, iff_of_false Bool.false_ne_true (not_le.2 hlt)⟩
    · rename_i hle
      split
      · exact Or.inl ⟨_, _, rfl, hprep.sound, hprep.kept⟩
      · obtain ⟨result', ticks', hreserve'⟩ := reserve_ticks env
          ({ w with ticks := ticks }.setSeq h (some { q with capacity := cap }))
          (q.tokens.length / w.store.cfg.pageTokens + 1) q.pageCapacity 16
        dsimp only [World.setSeq] at hreserve' ⊢
        rw [hreserve']
        cases result' with
        | error status =>
          exact Or.inl ⟨status, _, rfl, hprep.sound.ticks _, hprep.kept.trans (Kept.ticks _ _)⟩
        | ok pageCap =>
          exact Or.inr ⟨_, true, _, rfl, hprep.resize ticks' rfl rfl,
            iff_of_true rfl (not_lt.1 hle)⟩

section PagesFor

variable {cfg : KvConfig} {n : Nat}

theorem pagesFor_succ (htokens : 0 < cfg.pageTokens) :
    World.pagesFor cfg (n + 1) = n / cfg.pageTokens + 1 := by
  unfold World.pagesFor
  rw [show n + 1 + cfg.pageTokens - 1 = n + cfg.pageTokens by omega, Nat.add_div_right n htokens]

variable (cfg) in
theorem pagesFor_mono {m : Nat} (h : m ≤ n) : World.pagesFor cfg m ≤ World.pagesFor cfg n :=
  Nat.div_le_div_right (by omega)

theorem div_le_pagesFor (htokens : 0 < cfg.pageTokens) :
    n / cfg.pageTokens ≤ World.pagesFor cfg n :=
  Nat.div_le_div_right (by omega)

/-- Page of the last token when the pages have room for one more. -/
theorem pagesFor_succ_of_lt (htokens : 0 < cfg.pageTokens)
    (h : n / cfg.pageTokens < World.pagesFor cfg n) :
    World.pagesFor cfg (n + 1) = World.pagesFor cfg n := by
  have hmono := pagesFor_mono cfg (Nat.le_succ n)
  rw [pagesFor_succ htokens] at hmono ⊢
  omega

theorem pagesFor_succ_of_le (htokens : 0 < cfg.pageTokens)
    (h : World.pagesFor cfg n ≤ n / cfg.pageTokens) :
    World.pagesFor cfg (n + 1) = World.pagesFor cfg n + 1 := by
  have hle := div_le_pagesFor (n := n) htokens
  rw [pagesFor_succ htokens]
  omega

theorem pagesFor_le (htokens : 0 < cfg.pageTokens) : World.pagesFor cfg n ≤ n := by
  cases n with
  | zero => rw [pagesFor_zero htokens]
  | succ n =>
    rw [pagesFor_succ htokens]
    exact Nat.succ_le_succ (Nat.div_le_self n cfg.pageTokens)

theorem div_lt_pagesFor {token : Nat} (htokens : 0 < cfg.pageTokens) (h : token < n) :
    token / cfg.pageTokens < World.pagesFor cfg n := by
  have hmono := pagesFor_mono cfg (Nat.succ_le_of_lt h)
  rw [Nat.succ_eq_add_one, pagesFor_succ htokens] at hmono
  omega

end PagesFor

/-- An append that needs a page is made where opening one is safe. -/
def AppendSafe (env : Nat → Bool) (w : World) (h : Nat) : Prop :=
  ∀ q q' w', w.seq h = some q → w.prepareAppend env h q = (.ok (q', true), w') → PageSafe env w'

/-- The first page of a store is always safe to open. -/
theorem appendSafe_of_empty (hw : SeqSound w []) (hempty : w.store.pageCount = 0) :
    AppendSafe env w h := by
  intro q q' w' hq hprepare
  rcases prepareAppend_spec env hw hq with
    ⟨status, w1, hprepare', -⟩ | ⟨p, needed, w1, hprepare', hprep, -⟩
  · rw [hprepare] at hprepare'
    cases hprepare'
  · rw [hprepare] at hprepare'
    obtain ⟨-, rfl⟩ := Prod.mk.inj hprepare'
    refine ⟨fun _ => ?_, fun _ _ _ _ i hi => ?_⟩
    · rw [hprep.store, hempty]
      trivial
    · rw [hprep.store, hempty] at hi
      exact absurd hi (Nat.not_lt_zero i)

theorem SeqSound.sequenceAppend (hw : SeqSound w []) (hq : w.seq h = some q)
    (hsafe : AppendSafe env w h) (token : Nat) :
    ∃ status w', w.sequenceAppend env h token = some (status, w') ∧ SeqSound w' [] ∧ Kept w w' := by
  have hlength := hw.lengths h q hq
  unfold World.sequenceAppend
  rw [hq]
  simp only [Option.bind_eq_bind, Option.bind_some]
  rcases prepareAppend_spec env hw hq with
    ⟨status, w1, hprepare, h1, hkept⟩ | ⟨q', needed, w1, hprepare, hprep, hneeded⟩
  · rw [hprepare]
    exact ⟨status, w1, rfl, h1, hkept⟩
  · rw [hprepare]
    cases needed with
    | false =>
      dsimp only
      refine ⟨_, _, rfl, ?_, hprep.kept.trans (kept_setSeq (seq_lt hprep.seq) _)⟩
      apply hprep.sound.setSeq hprep.seq (List.Perm.refl _)
      intro p hp
      have hroom : q.tokens.length / w.store.cfg.pageTokens <
          World.pagesFor w.store.cfg q.tokens.length := by
        rw [← hlength]
        simpa using hneeded
      rw [← Option.some.inj hp]
      dsimp only
      rw [hprep.pages, hprep.tokens, hprep.store, List.length_append, hlength]
      exact (pagesFor_succ_of_lt hw.tokens hroom).symm
    | true =>
      dsimp only
      obtain ⟨slot, w2, hnew, hframe, h2⟩ :=
        hprep.sound.newPage (hsafe q q' w1 hq hprepare) .host
      rw [hnew]
      simp only [Option.bind_some]
      cases slot with
      | none => exact ⟨_, w2, rfl, h2, hprep.kept.trans hframe.kept⟩
      | some slot =>
        have hq' : w2.seq h = some q' := by
          rw [hframe.seq, hprep.seq]
        refine ⟨_, _, rfl, ?_, (hprep.kept.trans hframe.kept).trans (kept_setSeq (seq_lt hq') _)⟩
        apply h2.setSeq hq'
        · rw [seqSlots, List.append_nil, Option.toList_some, List.append_nil]
        · intro p hp
          have hfull : World.pagesFor w.store.cfg q.tokens.length ≤
              q.tokens.length / w.store.cfg.pageTokens := by
            rw [← hlength]
            exact hneeded.1 rfl
          rw [← Option.some.inj hp]
          dsimp only
          rw [hprep.pages, hprep.tokens, hframe.cfg, hprep.store, List.length_append,
            List.length_append, hlength]
          exact (pagesFor_succ_of_le hw.tokens hfull).symm

/-- A fork does not wrap the reference count of a page it shares. -/
def ForkSafe (w : World) (src count : Nat) : Prop :=
  ∀ q, w.seq src = some q → count ≤ q.tokens.length →
    ∀ x ∈ q.pages.take (World.pagesFor w.store.cfg count), (w.store.cells x.ptr.index).refs +
      refsTo (q.pages.take (World.pagesFor w.store.cfg count)) x.ptr.index < 2 ^ 32

instance (w : World) (src count : Nat) : Decidable (ForkSafe w src count) :=
  decidable_of_iff (∀ q ∈ (w.seq src).toList, count ≤ q.tokens.length →
    ∀ x ∈ q.pages.take (World.pagesFor w.store.cfg count), (w.store.cells x.ptr.index).refs +
      refsTo (q.pages.take (World.pagesFor w.store.cfg count)) x.ptr.index < 2 ^ 32) (by
    unfold ForkSafe
    simp only [Option.mem_toList])

variable (env) in
theorem SeqSound.sequenceFork {src : Nat} (hw : SeqSound w []) (hq : w.seq src = some q)
    {count : Nat} (hsafe : ForkSafe w src count) :
    ∃ result w', w.sequenceFork env src count = some (result, w') ∧ SeqSound w' [] ∧ Kept w w' ∧
      ∀ k, result = .ok k → k = w.seqs.length ∧ (w'.seq k).isSome := by
  unfold World.sequenceFork
  rw [hq]
  simp only [Option.bind_eq_bind, Option.bind_some]
  split
  · exact ⟨_, w, rfl, hw, Kept.refl w, by simp⟩
  · rename_i hcount
    unfold World.ask
    dsimp only
    split
    · exact ⟨_, _, rfl, hw.ticks _, Kept.ticks w _, by simp⟩
    · obtain ⟨result, ticks, hreserve⟩ :=
        reserve_ticks env { w with ticks := w.ticks + 1 } count 0 256
      rw [hreserve]
      cases result with
      | error status => exact ⟨_, _, rfl, hw.ticks _, Kept.ticks w _, by simp⟩
      | ok cap =>
        dsimp only
        obtain ⟨result', ticks', hreserve'⟩ := reserve_ticks env
          { w with ticks := ticks } (World.pagesFor w.store.cfg count) 0 16
        rw [hreserve']
        cases result' with
        | error status => exact ⟨_, _, rfl, hw.ticks _, Kept.ticks w _, by simp⟩
        | ok pageCap =>
          have hpages : World.pagesFor w.store.cfg count ≤ q.pages.length := by
            rw [hw.lengths src q hq]
            exact pagesFor_mono _ (not_lt.1 hcount)
          dsimp only
          rw [if_neg (not_lt.2 hpages)]
          have hmem : ∀ x ∈ q.pages.take (World.pagesFor w.store.cfg count), x ∈ w.slots :=
            fun x hx => mem_slots hq (List.mem_of_mem_take hx)
          obtain ⟨w1, hretain, h1, hframe⟩ := (hw.ticks ticks').retainAll hmem (by
            intro x hx
            have hbound := hsafe q hq (not_lt.1 hcount) x hx
            have hslot : x ∈ w.slots ++ [] := List.mem_append_left _ (hmem x hx)
            rw [hw.pages.refs _ (hw.pages.denotes x hslot).2.1] at hbound
            exact hbound)
          rw [hretain]
          simp only [Option.bind_some]
          have hkept : Kept w w1 := (Kept.ticks w ticks').trans hframe.kept
          refine ⟨_, _, rfl, ?_, hkept.trans (kept_addSeq _), ?_⟩
          · apply SeqSound.addSeq h1
            rw [hframe.cfg, List.length_take, List.length_take, Nat.min_eq_left hpages,
              Nat.min_eq_left (not_lt.1 hcount)]
          · intro k hk
            have hk' : k = w1.seqs.length := (Except.ok.inj hk).symm
            refine ⟨hk'.trans (congrArg List.length hframe.seqs), ?_⟩
            unfold World.addSeq
            rw [seq_append, if_pos hk']
            rfl

variable (env) in
theorem SeqSound.pageAcquire (hw : SeqSound w []) (hq : w.seq h = some q) (layer token : Nat)
    (desired : Tier) : ∃ result w', w.pageAcquire env h layer token desired = some (result, w') ∧
      SeqSound w' [] ∧ Kept w w' := by
  unfold World.pageAcquire
  rw [hq]
  simp only [Option.bind_eq_bind, Option.bind_some]
  split
  · exact ⟨_, w, rfl, hw, Kept.refl w⟩
  · rename_i hbounds
    rw [not_or, not_le, not_le] at hbounds
    have hpage : token / w.store.cfg.pageTokens < q.pages.length := by
      rw [hw.lengths h q hq]
      exact div_lt_pagesFor hw.tokens hbounds.2
    rw [List.getElem?_eq_getElem hpage]
    have hx : q.pages[token / w.store.cfg.pageTokens] ∈ w.slots ++ [] :=
      List.mem_append_left _ (mem_slots hq (List.getElem_mem hpage))
    generalize q.pages[token / w.store.cfg.pageTokens] = x at hx
    have hcell := (hw.pages.denotes x hx).2.1
    simp only [Option.bind_some, deref_slot hw hx]
    unfold World.faultPage
    rw [if_pos (hw.pages.resident _ hcell).1, if_neg (by simp)]
    refine ⟨_, _, rfl, ?_, Frame.kept ⟨rfl, rfl, rfl⟩⟩
    have hset : SeqSound (w.setCell x.ptr.index { w.store.cells x.ptr.index with
        age := inc64 w.store.clock
        tier := desired }) [] := by
      refine hw.setCell rfl rfl (fun y hy => hy) ?_ fun _ _ => rfl
      exact hw.pages.refs _ hcell
    exact hset.of_frame ⟨rfl, rfl, rfl⟩ (hset.pages.of_eq rfl rfl rfl fun _ _ => rfl) hset.room

end VgEngine.KvCache
