import VgEngine.KvCache.Sequences

/-! Where the pages of sequences come from: an append opens pages of fresh blocks, and every
other call only hands on pages that are there. -/
namespace VgEngine.KvCache

variable {env : Nat → Bool} {w w' : World} {h : Nat} {q : KvSequence}

section Opened

/-- What the search for room leaves of the sequences, of the trees and of the block names. -/
structure Rearranged (w w' : World) : Prop where
  seqs : w'.seqs = w.seqs
  cfg : w'.store.cfg = w.store.cfg
  radixes : w'.radixes = w.radixes
  next : w.heap.next ≤ w'.heap.next

theorem Rearranged.trans {w'' : World} (h : Rearranged w w') (h' : Rearranged w' w'') :
    Rearranged w w'' := ⟨h'.seqs.trans h.seqs, h'.cfg.trans h.cfg, h'.radixes.trans h.radixes,
      h.next.trans h'.next⟩

theorem Rearranged.withStore {s s' : KvStore} (h : Rearranged (w.withStore s) w')
    (hcfg : s.cfg = w.store.cfg) (hcfg' : s'.cfg = w'.store.cfg) :
    Rearranged w (w'.withStore s') :=
  ⟨h.seqs, hcfg'.trans (h.cfg.trans hcfg), h.radixes, h.next⟩

theorem free_rearranged {block : Option Nat} (hfree : w.free block = some w') :
    Rearranged w w' := by
  unfold World.free at hfree
  cases block with
  | none =>
    obtain rfl := Option.some.inj hfree
    exact ⟨rfl, rfl, rfl, Nat.le_refl _⟩
  | some b =>
    dsimp only at hfree
    split at hfree
    · obtain rfl := Option.some.inj hfree
      exact ⟨rfl, rfl, rfl, Nat.le_refl _⟩
    · cases hfree

theorem spillPage_rearranged {i : Nat} (hspill : w.spillPage env i = some w') :
    Rearranged w w' := by
  have hself : Rearranged w w := ⟨rfl, rfl, rfl, Nat.le_refl _⟩
  unfold World.spillPage World.ask at hspill
  dsimp only at hspill
  split at hspill
  · exact Option.some.inj hspill ▸ hself
  · split at hspill
    · exact Option.some.inj hspill ▸ hself
    · split at hspill
      · exact Option.some.inj hspill ▸ ⟨rfl, rfl, rfl, Nat.le_refl _⟩
      · split at hspill
        · exact Option.some.inj hspill ▸ ⟨rfl, rfl, rfl, Nat.le_refl _⟩
        · simp only [Option.bind_eq_bind, Option.bind_eq_some_iff] at hspill
          obtain ⟨contents, -, hfree⟩ := hspill
          have hfreed := free_rearranged hfree
          exact ⟨hfreed.seqs, hfreed.cfg, hfreed.radixes, hfreed.next⟩

theorem evictPage_rearranged {v : Nat} (hevict : w.evictPage env v = some w') :
    Rearranged w w' := by
  unfold World.evictPage at hevict
  simp only [Option.bind_eq_bind] at hevict
  split at hevict
  · obtain ⟨w1, hspill, hgap⟩ := Option.bind_eq_some_iff.1 hevict
    exact Option.some.inj hgap ▸ (spillPage_rearranged hspill).withStore (uncount_cfg _ _) rfl
  · obtain ⟨w1, hfree, hgap⟩ := Option.bind_eq_some_iff.1 hevict
    exact Option.some.inj hgap ▸ (free_rearranged hfree).withStore (uncount_cfg _ _) rfl

theorem evictLoop_rearranged {n : Nat} (hloop : w.evictLoop env n = some w') :
    Rearranged w w' := by
  induction n generalizing w with
  | zero => exact Option.some.inj hloop ▸ ⟨rfl, rfl, rfl, Nat.le_refl _⟩
  | succ n ih =>
    unfold World.evictLoop at hloop
    split at hloop
    · split at hloop
      · exact Option.some.inj hloop ▸ ⟨rfl, rfl, rfl, Nat.le_refl _⟩
      · obtain ⟨w1, hevict, hrest⟩ := Option.bind_eq_some_iff.1 hloop
        exact (evictPage_rearranged hevict).trans (ih hrest)
    · exact Option.some.inj hloop ▸ ⟨rfl, rfl, rfl, Nat.le_refl _⟩

theorem evictPages_rearranged (hevict : w.evictPages env = some w') : Rearranged w w' := by
  unfold World.evictPages at hevict
  split at hevict
  · exact Option.some.inj hevict ▸ ⟨rfl, rfl, rfl, Nat.le_refl _⟩
  · exact evictLoop_rearranged hevict

variable (env) in
theorem growPages_rearranged (w : World) : Rearranged w (w.growPages env).2 := by
  unfold World.growPages World.ask
  dsimp only
  split
  · split
    · exact ⟨rfl, rfl, rfl, Nat.le_refl _⟩
    · exact ⟨rfl, rfl, rfl, Nat.le_refl _⟩
  · exact ⟨rfl, rfl, rfl, Nat.le_refl _⟩

/-- A new page has a block that was not handed out before. -/
theorem newPage_fresh {tier : Tier} {slot : Option Slot}
    (hnew : w.newPage env tier = some (slot, w')) :
    Rearranged w w' ∧ ∀ x, slot = some x → w.heap.next ≤ x.block := by
  unfold World.newPage at hnew
  dsimp only at hnew
  split at hnew
  · obtain ⟨rfl, rfl⟩ := Prod.mk.inj (Option.some.inj hnew)
    exact ⟨⟨rfl, rfl, rfl, Nat.le_refl _⟩, fun x hx => by cases hx⟩
  · simp only [Option.bind_eq_bind, Option.bind_eq_some_iff] at hnew
    obtain ⟨w1, hevict, hnew⟩ := hnew
    have hevicted := evictPages_rearranged hevict
    split at hnew
    · obtain ⟨rfl, rfl⟩ := Prod.mk.inj (Option.some.inj hnew)
      exact ⟨hevicted, fun x hx => by cases hx⟩
    · unfold World.ask at hnew
      dsimp only at hnew
      split at hnew
      · obtain ⟨rfl, rfl⟩ := Prod.mk.inj (Option.some.inj hnew)
        exact ⟨⟨hevicted.seqs, hevicted.cfg, hevicted.radixes, hevicted.next⟩,
          fun x hx => by cases hx⟩
      · have hallocated : Rearranged w1 { w1 with
            heap := w1.heap.alloc (List.replicate (pageBytes w.store.cfg) 0)
            ticks := w1.ticks + 1 } := ⟨rfl, rfl, rfl, Nat.le_succ _⟩
        have hgrown := (hevicted.trans hallocated).trans (growPages_rearranged env _)
        split at hnew
        · rw [Option.map_eq_some_iff] at hnew
          obtain ⟨w2, hfree, hpair⟩ := hnew
          obtain ⟨rfl, rfl⟩ := Prod.mk.inj hpair
          exact ⟨hgrown.trans (free_rearranged hfree), fun x hx => by cases hx⟩
        · obtain ⟨rfl, rfl⟩ := Prod.mk.inj (Option.some.inj hnew)
          refine ⟨⟨hgrown.seqs, hgrown.cfg, hgrown.radixes, hgrown.next⟩, ?_⟩
          intro x hx
          obtain rfl := Option.some.inj hx
          exact hevicted.next

/-- Preparing an append changes the capacities of its sequence at most. -/
structure Resized (w w' : World) (h : Nat) (q q' : KvSequence) : Prop where
  other : ∀ k, k ≠ h → w'.seq k = w.seq k
  store : w'.store = w.store
  heap : w'.heap = w.heap
  radixes : w'.radixes = w.radixes
  seq : w'.seq h = some q'
  pages : q'.pages = q.pages
  tokens : q'.tokens = q.tokens

theorem Resized.again {q' p : KvSequence} (hresized : Resized w w' h q q') (ticks : Nat)
    (hpages : p.pages = q'.pages) (htokens : p.tokens = q'.tokens) :
    Resized w ({ w' with ticks := ticks }.setSeq h (some p)) h q p := by
  have hlt : h < { w' with ticks := ticks }.seqs.length := seq_lt hresized.seq
  refine ⟨?_, hresized.store, hresized.heap, hresized.radixes, ?_, hpages.trans hresized.pages,
    htokens.trans hresized.tokens⟩
  · intro k hk
    rw [seq_setSeq hlt, if_neg hk]
    exact hresized.other k hk
  · rw [seq_setSeq hlt, if_pos rfl]

variable (env) in
theorem reserve_failed (w : World) (n cap first : Nat) :
    (w.reserve env n cap first).1 ≠ .error .ok := by
  unfold World.reserve
  split
  · simp
  · split
    · simp
    · dsimp only
      split <;> simp

variable (env) in
/-- What preparing an append finds: a failure, or whether the token needs another page. -/
theorem prepareAppend_resized (hq : w.seq h = some q) :
    ∃ q', Resized w (w.prepareAppend env h q).2 h q q' ∧
      (w.prepareAppend env h q).1 ≠ .error .ok ∧
      ∀ p needed, (w.prepareAppend env h q).1 = .ok (p, needed) → p = q' ∧
        (needed = true ↔ q.pages.length ≤ q.tokens.length / w.store.cfg.pageTokens) := by
  have hself : Resized w w h q q := ⟨fun _ _ => rfl, rfl, rfl, rfl, hq, rfl, rfl⟩
  obtain ⟨result, ticks, hreserve⟩ := reserve_ticks env w (q.tokens.length + 1) q.capacity 256
  have hfailed := reserve_failed env w (q.tokens.length + 1) q.capacity 256
  unfold World.prepareAppend
  rw [hreserve] at hfailed ⊢
  cases result with
  | error status =>
    refine ⟨q, ⟨fun _ _ => rfl, rfl, rfl, rfl, hq, rfl, rfl⟩, ?_, fun p needed hp => by cases hp⟩
    intro hok
    exact hfailed (congrArg Except.error (Except.error.inj hok))
  | ok cap =>
    have hresized := hself.again (p := { q with capacity := cap }) ticks rfl rfl
    dsimp only
    split
    · rename_i hroom
      refine ⟨_, hresized, by simp, fun p needed hp => ?_⟩
      obtain ⟨rfl, rfl⟩ := Prod.mk.inj (Except.ok.inj hp)
      exact ⟨rfl, iff_of_false Bool.false_ne_true (not_le.2 hroom)⟩
    · rename_i hfull
      split
      · exact ⟨_, hresized, by simp, fun p needed hp => by cases hp⟩
      · obtain ⟨result', ticks', hreserve'⟩ := reserve_ticks env
          ({ w with ticks := ticks }.setSeq h (some { q with capacity := cap }))
          (q.tokens.length / w.store.cfg.pageTokens + 1) q.pageCapacity 16
        have hfailed' := reserve_failed env
          ({ w with ticks := ticks }.setSeq h (some { q with capacity := cap }))
          (q.tokens.length / w.store.cfg.pageTokens + 1) q.pageCapacity 16
        dsimp only [World.setSeq] at hreserve' hfailed' ⊢
        rw [hreserve'] at hfailed' ⊢
        cases result' with
        | error status =>
          refine ⟨_, ⟨hresized.other, rfl, rfl, rfl, hresized.seq, rfl, rfl⟩, ?_,
            fun p needed hp => by cases hp⟩
          intro hok
          exact hfailed' (congrArg Except.error (Except.error.inj hok))
        | ok pageCap =>
          have hagain := hresized.again
            (p := { q with capacity := cap, pageCapacity := pageCap }) ticks' rfl rfl
          refine ⟨_, hagain, by simp, fun p needed hp => ?_⟩
          obtain ⟨rfl, rfl⟩ := Prod.mk.inj (Except.ok.inj hp)
          exact ⟨rfl, iff_of_true rfl (not_lt.1 hfull)⟩

/-- An append adds at most one slot, of a fresh block, to its own sequence: where it succeeds, a slot
exactly if the pages are full, with the token, and otherwise nothing. -/
structure Appended (w w' : World) (h token : Nat) (q : KvSequence) (status : Status)
    (new : List Slot) : Prop where
  cfg : w'.store.cfg = w.store.cfg
  radixes : w'.radixes = w.radixes
  other : ∀ k, k ≠ h → w'.seq k = w.seq k
  seq : ∃ q', w'.seq h = some q' ∧ q'.pages = q.pages ++ new ∧
    q'.tokens = q.tokens ++ if status = .ok then [token] else []
  length : new.length = if status = .ok ∧
    q.pages.length ≤ q.tokens.length / w.store.cfg.pageTokens then 1 else 0
  fresh : ∀ x ∈ new, w.heap.next ≤ x.block

theorem Appended.length_le {token : Nat} {status : Status} {new : List Slot}
    (happended : Appended w w' h token q status new) : new.length ≤ 1 := by
  rw [happended.length]
  split
  · exact Nat.le_refl 1
  · exact Nat.zero_le 1

theorem sequenceAppend_appended {token : Nat} {status : Status} (hq : w.seq h = some q)
    (happend : w.sequenceAppend env h token = some (status, w')) :
    ∃ new, Appended w w' h token q status new := by
  obtain ⟨q', hresized, hfailed, hsame⟩ := prepareAppend_resized env hq
  unfold World.sequenceAppend at happend
  rw [hq] at happend
  simp only [Option.bind_eq_bind, Option.bind_some] at happend
  generalize w.prepareAppend env h q = prepared at hresized hfailed hsame happend
  obtain ⟨result, w1⟩ := prepared
  have hlt : ∀ w2 : World, w2.seqs = w1.seqs → h < w2.seqs.length := by
    intro w2 hw2
    rw [hw2]
    exact seq_lt hresized.seq
  cases result with
  | error status =>
    obtain ⟨rfl, rfl⟩ := Prod.mk.inj (Option.some.inj happend)
    have hne : status ≠ .ok := fun h => hfailed (congrArg Except.error h)
    exact ⟨[], congrArg KvStore.cfg hresized.store, hresized.radixes, hresized.other,
      ⟨q', hresized.seq, by rw [hresized.pages, List.append_nil],
        by rw [hresized.tokens, if_neg hne, List.append_nil]⟩,
      (if_neg fun h => hne h.1).symm, fun x hx => by cases hx⟩
  | ok r =>
    obtain ⟨p, needed⟩ := r
    obtain ⟨rfl, hneeded⟩ := hsame p needed rfl
    cases needed with
    | false =>
      obtain ⟨rfl, rfl⟩ := Prod.mk.inj (Option.some.inj happend)
      have hlength := seq_lt hresized.seq
      have hroom : ¬ q.pages.length ≤ q.tokens.length / w.store.cfg.pageTokens := by
        rw [← hneeded]
        exact Bool.false_ne_true
      refine ⟨[], congrArg KvStore.cfg hresized.store, hresized.radixes, ?_, ⟨{ p with tokens := p.tokens ++ [token] },
        ?_, by rw [hresized.pages, List.append_nil], by rw [hresized.tokens, if_pos rfl]⟩,
        (if_neg fun h => hroom h.2).symm, fun x hx => by cases hx⟩
      · intro k hk
        rw [seq_setSeq hlength, if_neg hk]
        exact hresized.other k hk
      · rw [seq_setSeq hlength, if_pos rfl]
    | true =>
      dsimp only at happend
      obtain ⟨⟨slot, w2⟩, hnew, hrest⟩ := Option.bind_eq_some_iff.1 happend
      obtain ⟨⟨hseqs, hcfg, hradixes, -⟩, hfresh⟩ := newPage_fresh hnew
      have hcfg' := hcfg.trans (congrArg KvStore.cfg hresized.store)
      have hradixes' := hradixes.trans hresized.radixes
      have hkept : ∀ k, w2.seq k = w1.seq k := by
        intro k
        unfold World.seq
        rw [hseqs]
      cases slot with
      | none =>
        obtain ⟨rfl, rfl⟩ := Prod.mk.inj (Option.some.inj hrest)
        refine ⟨[], hcfg', hradixes', ?_, ⟨p, ?_, by rw [hresized.pages, List.append_nil],
          by rw [hresized.tokens, if_neg (by decide), List.append_nil]⟩,
          (if_neg fun h => absurd h.1 (by decide)).symm, fun x hx => by cases hx⟩
        · intro k hk
          rw [hkept]
          exact hresized.other k hk
        · rw [hkept]
          exact hresized.seq
      | some slot =>
        obtain ⟨rfl, rfl⟩ := Prod.mk.inj (Option.some.inj hrest)
        refine ⟨[slot], hcfg', hradixes', ?_,
          ⟨{ p with pages := p.pages ++ [slot], tokens := p.tokens ++ [token] }, ?_,
            congrArg (· ++ [slot]) hresized.pages, by rw [hresized.tokens, if_pos rfl]⟩,
          (if_pos ⟨rfl, hneeded.1 rfl⟩).symm, ?_⟩
        · intro k hk
          rw [seq_setSeq (hlt w2 hseqs), if_neg hk, hkept]
          exact hresized.other k hk
        · rw [seq_setSeq (hlt w2 hseqs), if_pos rfl]
        · intro x hx
          obtain rfl := List.mem_singleton.1 hx
          rw [← hresized.heap]
          exact hfresh x rfl

end Opened

section Derived

/-- Every sequence left holds pages from the front of one that was there. -/
def Derived (w w' : World) : Prop :=
  ∀ k p, w'.seq k = some p → p.pages = [] ∨ ∃ j q, w.seq j = some q ∧ p.pages <+: q.pages

theorem Derived.trans {w'' : World} (h : Derived w w') (h' : Derived w' w'') : Derived w w'' := by
  intro k p hp
  rcases h' k p hp with hnil | ⟨j, q, hq, hpre⟩
  · exact Or.inl hnil
  · rcases h j q hq with hnil | ⟨i, q', hq', hpre'⟩
    · rw [hnil, List.prefix_nil] at hpre
      exact Or.inl hpre
    · exact Or.inr ⟨i, q', hq', hpre.trans hpre'⟩

theorem derived_of_seqs (hseqs : w'.seqs = w.seqs) : Derived w w' := by
  intro k p hp
  unfold World.seq at hp
  rw [hseqs] at hp
  exact Or.inr ⟨k, p, hp, List.prefix_refl _⟩

theorem derived_setSeq_none (w : World) (h : Nat) : Derived w (w.setSeq h none) := by
  intro k p hp
  unfold World.setSeq World.seq at hp
  dsimp only at hp
  rw [List.getElem?_set] at hp
  split at hp
  · split at hp
    · cases hp
    · cases hp
  · exact Or.inr ⟨k, p, hp, List.prefix_refl _⟩

theorem derived_addSeq {p : KvSequence} (hp : p.pages = [] ∨
    ∃ j q, w.seq j = some q ∧ p.pages <+: q.pages) : Derived w (w.addSeq p).2 := by
  intro k p' hp'
  unfold World.addSeq at hp'
  rw [seq_append] at hp'
  split at hp'
  · obtain rfl := Option.some.inj hp'
    exact hp
  · exact Or.inr ⟨k, p', hp', List.prefix_refl _⟩

theorem retainAll_seqs {xs : List Slot} (hretain : World.retainAll xs w = some w') :
    w'.seqs = w.seqs ∧ w'.store.cfg = w.store.cfg ∧ w'.radixes = w.radixes := by
  induction xs generalizing w with
  | nil =>
    obtain rfl := Option.some.inj hretain
    exact ⟨rfl, rfl, rfl⟩
  | cons x xs ih =>
    obtain ⟨w1, hone, hrest⟩ := Option.bind_eq_some_iff.1 hretain
    obtain ⟨page, -, rfl⟩ := Option.map_eq_some_iff.1 hone
    have hseqs := ih hrest
    exact hseqs

theorem dropAll_seqs {xs : List Slot} (hdrop : World.dropAll xs w = some w') :
    w'.seqs = w.seqs ∧ w'.store.cfg = w.store.cfg ∧ w'.radixes = w.radixes := by
  induction xs generalizing w with
  | nil =>
    obtain rfl := Option.some.inj hdrop
    exact ⟨rfl, rfl, rfl⟩
  | cons x xs ih =>
    obtain ⟨w1, hone, hrest⟩ := Option.bind_eq_some_iff.1 hdrop
    obtain ⟨page, -, rfl⟩ := Option.map_eq_some_iff.1 hone
    have hseqs := ih hrest
    exact hseqs

theorem sequenceClose_derived (hclose : w.sequenceClose h = some w') : Derived w w' := by
  obtain ⟨q, -, hdrop⟩ := Option.bind_eq_some_iff.1 hclose
  exact (derived_setSeq_none w h).trans (derived_of_seqs (dropAll_seqs hdrop).1)

theorem closeAll_derived {hs : List Nat} (hclose : World.closeAll hs w = some w') :
    Derived w w' := by
  induction hs generalizing w with
  | nil => exact derived_of_seqs (congrArg World.seqs (Option.some.inj hclose).symm)
  | cons h hs ih =>
    obtain ⟨w1, hone, hrest⟩ := Option.bind_eq_some_iff.1 hclose
    exact (sequenceClose_derived hone).trans (ih hrest)

/-- A fork that succeeds is a new sequence on the first pages of the old one. -/
theorem sequenceFork_seqs {src count : Nat} {result : Except Status Nat}
    (hfork : w.sequenceFork env src count = some (result, w')) :
    w'.store.cfg = w.store.cfg ∧ w'.radixes = w.radixes ∧ (w'.seqs = w.seqs ∧ (∀ k, result ≠ .ok k) ∨
      ∃ q p, w.seq src = some q ∧ count ≤ q.tokens.length ∧ p.tokens = q.tokens.take count ∧
        p.pages = q.pages.take (World.pagesFor w.store.cfg count) ∧
        result = .ok w.seqs.length ∧ w'.seqs = w.seqs ++ [some p]) := by
  obtain ⟨q, hq, hfork⟩ := Option.bind_eq_some_iff.1 hfork
  split at hfork
  · obtain ⟨rfl, rfl⟩ := Prod.mk.inj (Option.some.inj hfork)
    exact ⟨rfl, rfl, Or.inl ⟨rfl, fun k hk => by cases hk⟩⟩
  · rename_i hcount
    unfold World.ask at hfork
    dsimp only at hfork
    split at hfork
    · obtain ⟨rfl, rfl⟩ := Prod.mk.inj (Option.some.inj hfork)
      exact ⟨rfl, rfl, Or.inl ⟨rfl, fun k hk => by cases hk⟩⟩
    · obtain ⟨result', ticks, hreserve⟩ :=
        reserve_ticks env { w with ticks := w.ticks + 1 } count 0 256
      rw [hreserve] at hfork
      cases result' with
      | error status =>
        obtain ⟨rfl, rfl⟩ := Prod.mk.inj (Option.some.inj hfork)
        exact ⟨rfl, rfl, Or.inl ⟨rfl, fun k hk => by cases hk⟩⟩
      | ok cap =>
        dsimp only at hfork
        obtain ⟨result', ticks', hreserve'⟩ :=
          reserve_ticks env { w with ticks := ticks } (World.pagesFor w.store.cfg count) 0 16
        rw [hreserve'] at hfork
        cases result' with
        | error status =>
          obtain ⟨rfl, rfl⟩ := Prod.mk.inj (Option.some.inj hfork)
          exact ⟨rfl, rfl, Or.inl ⟨rfl, fun k hk => by cases hk⟩⟩
        | ok pageCap =>
          dsimp only at hfork
          split at hfork
          · cases hfork
          · obtain ⟨w1, hretain, hadd⟩ := Option.bind_eq_some_iff.1 hfork
            obtain ⟨hseqs, hcfg, hradixes⟩ := retainAll_seqs hretain
            obtain ⟨rfl, rfl⟩ := Prod.mk.inj (Option.some.inj hadd)
            refine ⟨hcfg, hradixes, Or.inr ⟨q, ⟨q.tokens.take count, cap, q.pages.take (World.pagesFor _ count),
              pageCap⟩, hq, not_lt.1 hcount, rfl, rfl, ?_, ?_⟩⟩
            · exact congrArg (fun l => Except.ok (List.length l)) hseqs
            · exact congrArg (· ++ [some _]) hseqs

theorem sequenceFork_derived {src count : Nat} {result : Except Status Nat}
    (hfork : w.sequenceFork env src count = some (result, w')) : Derived w w' := by
  rcases (sequenceFork_seqs hfork).2.2 with ⟨hseqs, -⟩ | ⟨q, p, hq, -, -, hpages, -, hseqs⟩
  · exact derived_of_seqs hseqs
  · have hadd : Derived w (w.addSeq p).2 :=
      derived_addSeq (Or.inr ⟨src, q, hq, by rw [hpages]; exact List.take_prefix _ _⟩)
    exact hadd.trans (derived_of_seqs hseqs)

theorem radixInsert_derived {r seq count fp : Nat} {tainted : Bool} {status : Status}
    (hinsert : w.radixInsert env r seq count fp tainted = some (status, w')) : Derived w w' := by
  obtain ⟨t, -, hinsert⟩ := Option.bind_eq_some_iff.1 hinsert
  obtain ⟨q, -, hinsert⟩ := Option.bind_eq_some_iff.1 hinsert
  split at hinsert
  · exact derived_of_seqs (congrArg (fun r => r.2.seqs) (Option.some.inj hinsert).symm)
  · obtain ⟨w1, hclose, hrest⟩ := Option.bind_eq_some_iff.1 hinsert
    have hclosed := closeAll_derived hclose
    apply Derived.trans hclosed
    split at hrest
    · obtain ⟨w2, hreplace, hrest⟩ := Option.bind_eq_some_iff.1 hrest
      have hreplaced : Derived w1 w2 := by
        unfold World.closeReplaced at hreplace
        split at hreplace
        · exact derived_of_seqs (congrArg World.seqs (Option.some.inj hreplace).symm)
        · exact sequenceClose_derived hreplace
      obtain ⟨⟨result, w3⟩, hfork, hend⟩ := Option.bind_eq_some_iff.1 hrest
      apply (hreplaced.trans (sequenceFork_derived hfork)).trans
      cases result with
      | error status => exact derived_of_seqs (congrArg (fun r => r.2.seqs) (Option.some.inj hend).symm)
      | ok h => exact derived_of_seqs (congrArg (fun r => r.2.seqs) (Option.some.inj hend).symm)
    · exact derived_of_seqs (congrArg (fun r => r.2.seqs) (Option.some.inj hrest).symm)

theorem pageAcquire_seqs {layer token : Nat} {desired : Tier}
    {result : Except Status (Option Nat × Nat × Nat)}
    (hacquire : w.pageAcquire env h layer token desired = some (result, w')) :
    w'.seqs = w.seqs ∧ w'.store.cfg = w.store.cfg ∧ w'.radixes = w.radixes := by
  have hfault : ∀ i, (w.faultPage env i).2.seqs = w.seqs ∧
      (w.faultPage env i).2.store.cfg = w.store.cfg ∧
      (w.faultPage env i).2.radixes = w.radixes := by
    intro i
    unfold World.faultPage World.ask
    dsimp only
    split
    · exact ⟨rfl, rfl, rfl⟩
    · split
      · exact ⟨rfl, rfl, rfl⟩
      · split
        · exact ⟨rfl, rfl, rfl⟩
        · split
          · exact ⟨rfl, rfl, rfl⟩
          · split
            · exact ⟨rfl, rfl, rfl⟩
            · exact ⟨rfl, rfl, rfl⟩
  obtain ⟨q, -, hacquire⟩ := Option.bind_eq_some_iff.1 hacquire
  split at hacquire
  · obtain ⟨-, rfl⟩ := Prod.mk.inj (Option.some.inj hacquire)
    exact ⟨rfl, rfl, rfl⟩
  · obtain ⟨slot, -, hacquire⟩ := Option.bind_eq_some_iff.1 hacquire
    obtain ⟨page, -, hacquire⟩ := Option.bind_eq_some_iff.1 hacquire
    have hsame := hfault slot.ptr.index
    generalize w.faultPage env slot.ptr.index = faulted at hsame hacquire
    obtain ⟨ok, w1⟩ := faulted
    dsimp only at hsame hacquire
    split at hacquire
    · obtain ⟨-, rfl⟩ := Prod.mk.inj (Option.some.inj hacquire)
      exact hsame
    · obtain ⟨-, rfl⟩ := Prod.mk.inj (Option.some.inj hacquire)
      exact hsame

/-- Only an append gives a sequence a page that no sequence had. -/
theorem step_derived {call : Call} (happend : ∀ h token, call ≠ .append h token)
    (hstep : w.step env call = some w') : Derived w w' := by
  cases call with
  | sequenceInit =>
    obtain rfl := Option.some.inj hstep
    unfold World.sequenceInit World.ask
    dsimp only
    split
    · exact derived_addSeq (Or.inl rfl)
    · exact derived_of_seqs rfl
  | append h token => exact absurd rfl (happend h token)
  | fork src count =>
    obtain ⟨r, hfork, rfl⟩ := Option.map_eq_some_iff.1 hstep
    exact sequenceFork_derived hfork
  | close h => exact sequenceClose_derived hstep
  | pageAcquire h layer token desired =>
    obtain ⟨r, hacquire, rfl⟩ := Option.map_eq_some_iff.1 hstep
    exact derived_of_seqs (pageAcquire_seqs hacquire).1
  | radixOpen =>
    obtain rfl := Option.some.inj hstep
    unfold World.radixOpen World.ask
    dsimp only
    split
    · exact derived_of_seqs rfl
    · split
      · exact derived_of_seqs rfl
      · exact derived_of_seqs rfl
  | radixInsert r seq count fp tainted =>
    obtain ⟨result, hinsert, rfl⟩ := Option.map_eq_some_iff.1 hstep
    exact radixInsert_derived hinsert
  | radixLookup r tokens =>
    obtain ⟨result, hlookup, rfl⟩ := Option.map_eq_some_iff.1 hstep
    obtain ⟨t, -, hlookup⟩ := Option.bind_eq_some_iff.1 hlookup
    dsimp only at hlookup
    split at hlookup
    · exact derived_of_seqs (congrArg (fun r => r.2.seqs) (Option.some.inj hlookup).symm)
    · exact derived_of_seqs (congrArg (fun r => r.2.seqs) (Option.some.inj hlookup).symm)
  | radixInvalidate r =>
    obtain ⟨t, -, hstep⟩ := Option.bind_eq_some_iff.1 hstep
    obtain ⟨w1, hclose, hend⟩ := Option.bind_eq_some_iff.1 hstep
    obtain rfl := Option.some.inj hend
    have hclosed : Derived w w1 := closeAll_derived hclose
    exact hclosed

end Derived

end VgEngine.KvCache
