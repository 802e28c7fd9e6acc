import VgEngine.KvCache.Owned
import VgEngine.Lib.RadixValues

/-! Calls whose allocations succeed: the walk of an insertion makes its path lead to a
node, and closing and forking a sequence are defined wherever its pages can be reached. -/
namespace VgEngine.KvCache
open RadixTree RadixTree.Tree

/-- Every allocation succeeds. -/
def granted : Nat → Bool := fun _ => true

variable {w w' : World} {h : Nat} {q : KvSequence}

theorem nodeNew_granted (count ticks : Nat) : (nodeNew granted count ticks).1 = true := by
  unfold nodeNew granted
  split
  · rename_i hfalse
    cases hfalse
  · split <;> rfl

theorem childAdd_granted (n ticks : Nat) : (childAdd granted n ticks).1 = true := by
  unfold childAdd granted
  split <;> rfl

theorem addAll_granted (done cs : List RadixNode) (ticks : Nat) :
    (addAll granted done cs ticks).1 = done ++ cs := by
  induction cs generalizing done ticks with
  | nil => rw [addAll, List.append_nil]
  | cons c cs ih =>
    rw [addAll]
    dsimp only
    rw [ih, childAdd_granted, if_pos rfl, List.append_assoc, List.singleton_append]

/-- The walk has made the path lead to a node, and freed nothing. -/
structure Reached {τ : Type} (g : Grown τ) (tree : τ) : Prop where
  status : g.status = .ok
  tree : g.tree = tree
  freed : g.freed = []

theorem splitEdge_granted (path : List Nat) (k : Nat) (c : RadixNode) (ticks : Nat) :
    Reached (splitEdge granted path k c ticks) (split .empty path k c) := by
  unfold splitEdge split leafFor
  dsimp only
  rw [if_neg (by rw [nodeNew_granted]; simp), if_neg (by rw [childAdd_granted]; simp)]
  simp only [addAll_granted, List.nil_append]
  by_cases hrest : path.drop k = []
  · rw [if_pos hrest, if_pos hrest]
    exact ⟨rfl, rfl, rfl⟩
  · rw [if_neg hrest, if_neg hrest, if_neg (by rw [nodeNew_granted]; simp),
      if_neg (by rw [childAdd_granted]; simp)]
    exact ⟨rfl, rfl, rfl⟩

mutual
theorem grow_granted (path : List Nat) (t : RadixNode) (ticks : Nat) :
    Reached (grow granted path t ticks) (t.reach .empty path) := by
  cases t with
  | node label v cs =>
    rw [grow, reach]
    by_cases hpath : path = []
    · rw [if_pos hpath, if_pos hpath]
      exact ⟨rfl, rfl, rfl⟩
    · rw [if_neg hpath, if_neg hpath]
      have hcs := growAll_granted path cs.length cs ticks
      exact ⟨hcs.status, congrArg _ hcs.tree, hcs.freed⟩
theorem growAll_granted (path : List Nat) (n : Nat) (cs : List RadixNode) (ticks : Nat) :
    Reached (growAll granted path n cs ticks) (reachAll .empty path cs) := by
  cases cs with
  | nil =>
    rw [growAll, reachAll]
    dsimp only
    rw [if_neg (by rw [nodeNew_granted]; simp), if_neg (by rw [childAdd_granted]; simp)]
    exact ⟨rfl, rfl, rfl⟩
  | cons c cs =>
    rw [growAll, reachAll]
    by_cases hleads : Leads path c
    · rw [if_pos hleads, if_pos hleads]
      by_cases hshort : common path c.label < c.label.length
      · rw [if_pos hshort, if_pos hshort]
        have hsplit := splitEdge_granted path (common path c.label) c ticks
        exact ⟨hsplit.status, congrArg (· :: cs) hsplit.tree, hsplit.freed⟩
      · rw [if_neg hshort, if_neg hshort]
        have hgrow := grow_granted (path.drop (common path c.label)) c ticks
        exact ⟨hgrow.status, congrArg (· :: cs) hgrow.tree, hgrow.freed⟩
    · rw [if_neg hleads, if_neg hleads]
      have hrest := growAll_granted path n cs ticks
      exact ⟨hrest.status, congrArg (c :: ·) hrest.tree, hrest.freed⟩
end

/-- Each live sequence has the pages of its tokens, all in the array of today. Its tokens
are an array of eight-byte words. -/
structure Usable (w : World) : Prop where
  tokens : 0 < w.store.cfg.pageTokens
  lengths : ∀ h q, w.seq h = some q → q.pages.length = World.pagesFor w.store.cfg q.tokens.length
  pages : ∀ h q, w.seq h = some q → ∀ x ∈ q.pages, x.ptr.gen = w.store.gen
  fits : ∀ h q, w.seq h = some q → q.tokens.length < 2 ^ 61

theorem usable_iff : Usable w ↔ 0 < w.store.cfg.pageTokens ∧ ∀ o ∈ w.seqs, ∀ q ∈ o.toList,
    q.pages.length = World.pagesFor w.store.cfg q.tokens.length ∧
      (∀ x ∈ q.pages, x.ptr.gen = w.store.gen) ∧ q.tokens.length < 2 ^ 61 := by
  constructor
  · intro hw
    refine ⟨hw.tokens, fun o ho q hq => ?_⟩
    obtain ⟨h, hlt, hget⟩ := List.getElem_of_mem ho
    have hseq : w.seq h = some q := by
      rw [seq_eq_some, List.getElem?_eq_getElem hlt, hget, Option.mem_toList.1 hq]
    exact ⟨hw.lengths h q hseq, hw.pages h q hseq, hw.fits h q hseq⟩
  · rintro ⟨htokens, hall⟩
    have hmem : ∀ h q, w.seq h = some q → some q ∈ w.seqs := by
      intro h q hq
      exact List.mem_of_getElem? (seq_eq_some.1 hq)
    refine ⟨htokens, fun h q hq => ?_, fun h q hq => ?_, fun h q hq => ?_⟩
    · exact (hall _ (hmem h q hq) q (Option.mem_toList.2 rfl)).1
    · exact (hall _ (hmem h q hq) q (Option.mem_toList.2 rfl)).2.1
    · exact (hall _ (hmem h q hq) q (Option.mem_toList.2 rfl)).2.2

instance (w : World) : Decidable (Usable w) := decidable_of_iff _ usable_iff.symm

/-- A sound store is usable. -/
theorem Sound.usable (hw : Sound w) (hfits : ∀ h q, w.seq h = some q → q.tokens.length < 2 ^ 61) :
    Usable w where
  tokens := hw.seqs.tokens
  lengths := hw.seqs.lengths
  pages := by
    intro h q hq x hx
    exact (hw.seqs.pages.denotes x (List.mem_append_left _ (mem_slots hq hx))).1
  fits := hfits

/-- Only reference counts have changed. -/
structure Counted (w w' : World) : Prop extends Frame w w' where
  gen : w'.store.gen = w.store.gen

theorem Counted.trans {w'' : World} (h : Counted w w') (h' : Counted w' w'') : Counted w w'' :=
  ⟨h.toFrame.trans h'.toFrame, h'.gen.trans h.gen⟩

theorem setCell_counted (w : World) (i : Nat) (x : Page) : Counted w (w.setCell i x) :=
  ⟨⟨rfl, rfl, rfl⟩, rfl⟩

theorem dropAll_counted {xs : List Slot} (hgen : ∀ x ∈ xs, x.ptr.gen = w.store.gen) :
    ∃ w', World.dropAll xs w = some w' ∧ Counted w w' := by
  induction xs generalizing w with
  | nil => exact ⟨w, rfl, Frame.refl w, rfl⟩
  | cons x xs ih =>
    obtain ⟨w', hrest, hcounted⟩ := ih (w := w.setCell x.ptr.index
        { w.store.cells x.ptr.index with refs := (w.store.cells x.ptr.index).refs - 1 })
      fun y hy => hgen y (List.mem_cons_of_mem x hy)
    refine ⟨w', ?_, (setCell_counted w _ _).trans hcounted⟩
    rw [World.dropAll, World.pageDrop, World.deref, if_pos (hgen x List.mem_cons_self)]
    exact hrest

theorem retainAll_counted {xs : List Slot} (hgen : ∀ x ∈ xs, x.ptr.gen = w.store.gen) :
    ∃ w', World.retainAll xs w = some w' ∧ Counted w w' := by
  induction xs generalizing w with
  | nil => exact ⟨w, rfl, Frame.refl w, rfl⟩
  | cons x xs ih =>
    obtain ⟨w', hrest, hcounted⟩ := ih (w := w.setCell x.ptr.index
        { w.store.cells x.ptr.index with
          refs := ((w.store.cells x.ptr.index).refs + 1) % 2 ^ 32 })
      fun y hy => hgen y (List.mem_cons_of_mem x hy)
    refine ⟨w', ?_, (setCell_counted w _ _).trans hcounted⟩
    rw [World.retainAll, World.pageRetain, World.deref, if_pos (hgen x List.mem_cons_self)]
    exact hrest

theorem Usable.sequenceClose (hw : Usable w) (hq : w.seq h = some q) :
    ∃ w', w.sequenceClose h = some w' ∧ Counted (w.setSeq h none) w' := by
  obtain ⟨w', hdrop, hcounted⟩ := dropAll_counted (w := w.setSeq h none) (hw.pages h q hq)
  refine ⟨w', ?_, hcounted⟩
  rw [World.sequenceClose, hq]
  exact hdrop

/-- Usable after a change of the sequences that leaves the array alone. -/
theorem Usable.of_counted (hw : Usable w) (hcfg : w'.store.cfg = w.store.cfg)
    (hgen : w'.store.gen = w.store.gen)
    (hseq : ∀ k p, w'.seq k = some p → (∃ k', w.seq k' = some p) ∨
      p.pages.length = World.pagesFor w.store.cfg p.tokens.length ∧
        (∀ x ∈ p.pages, x.ptr.gen = w.store.gen) ∧ p.tokens.length < 2 ^ 61) : Usable w' where
  tokens := by
    rw [hcfg]
    exact hw.tokens
  lengths := by
    intro k p hp
    rw [hcfg]
    rcases hseq k p hp with ⟨k', hp'⟩ | hnew
    · exact hw.lengths k' p hp'
    · exact hnew.1
  pages := by
    intro k p hp
    rw [hgen]
    rcases hseq k p hp with ⟨k', hp'⟩ | hnew
    · exact hw.pages k' p hp'
    · exact hnew.2.1
  fits := by
    intro k p hp
    rcases hseq k p hp with ⟨k', hp'⟩ | hnew
    · exact hw.fits k' p hp'
    · exact hnew.2.2

theorem Usable.closed (hw : Usable w) (hq : w.seq h = some q)
    (hcounted : Counted (w.setSeq h none) w') : Usable w' := by
  apply hw.of_counted hcounted.cfg hcounted.gen
  intro k p hp
  rw [hcounted.seq, seq_setSeq (seq_lt hq)] at hp
  split at hp
  · cases hp
  · exact Or.inl ⟨k, hp⟩

/-- A capacity that can hold the items is found by doubling. -/
theorem growCapacity_some {fuel n cap : Nat} (hcap : 0 < cap) (hn : n ≤ 2 ^ 63)
    (hfuel : n ≤ cap * 2 ^ fuel) : (World.growCapacity (fuel + 1) n cap).isSome := by
  induction fuel generalizing cap with
  | zero =>
    rw [World.growCapacity, if_pos (by simpa using hfuel)]
    rfl
  | succ fuel ih =>
    rw [World.growCapacity]
    split
    · rfl
    · rename_i hlt
      rw [if_neg (by unfold sizeMax; omega)]
      apply ih (by omega)
      calc n ≤ cap * 2 ^ (fuel + 1) := hfuel
        _ = cap * 2 * 2 ^ fuel := by ring

theorem reserve_granted {n f : Nat} (hfirst : 0 < f) (hn : n ≤ 2 ^ 63) :
    ∃ cap ticks, w.reserve granted n 0 f = (.ok cap, { w with ticks := ticks }) := by
  unfold World.reserve
  by_cases hzero : n ≤ 0
  · rw [if_pos hzero]
    exact ⟨0, w.ticks, rfl⟩
  · rw [if_neg hzero, if_pos rfl]
    have hsome : (World.growCapacity 65 n f).isSome := by
      apply growCapacity_some hfirst hn
      calc n ≤ 1 * 2 ^ 64 := by omega
        _ ≤ f * 2 ^ 64 := Nat.mul_le_mul_right _ hfirst
    obtain ⟨cap, hcap⟩ := Option.isSome_iff_exists.1 hsome
    rw [hcap]
    exact ⟨cap, w.ticks + 1, rfl⟩

/-- A fork makes a new sequence with the first tokens of the old one. -/
theorem Usable.sequenceFork (hw : Usable w) {src count : Nat} (hq : w.seq src = some q)
    (hcount : count ≤ q.tokens.length) :
    ∃ p w', w.sequenceFork granted src count = some (.ok w.seqs.length, w') ∧
      w'.seqs = w.seqs ++ [some p] ∧ p.tokens = q.tokens.take count ∧
      w'.radixes = w.radixes ∧ Usable w' := by
  have hfits := hw.fits src q hq
  have hpages : World.pagesFor w.store.cfg count ≤ q.pages.length := by
    rw [hw.lengths src q hq]
    exact pagesFor_mono _ hcount
  have hsmall : World.pagesFor w.store.cfg count ≤ 2 ^ 63 := by
    have hle := pagesFor_le (n := count) hw.tokens
    omega
  obtain ⟨cap, ticks, hreserve⟩ := reserve_granted (w := { w with ticks := w.ticks + 1 })
    (n := count) (f := 256) (by omega) (by omega)
  obtain ⟨pageCap, ticks', hreserve'⟩ := reserve_granted (w := { w with ticks := ticks })
    (n := World.pagesFor w.store.cfg count) (f := 16) (by omega) hsmall
  obtain ⟨w1, hretain, hcounted⟩ := retainAll_counted (w := { w with ticks := ticks' })
    fun x hx => hw.pages src q hq x (List.mem_of_mem_take hx)
  have hseqs : w1.seqs = w.seqs := hcounted.seqs
  refine ⟨⟨q.tokens.take count, cap, q.pages.take (World.pagesFor w.store.cfg count), pageCap⟩,
    (w1.addSeq _).2, ?_, congrArg (· ++ _) hseqs, rfl, hcounted.radixes, ?_⟩
  · rw [World.sequenceFork, hq]
    simp only [Option.bind_eq_bind, Option.bind_some]
    rw [if_neg (not_lt.2 hcount), World.ask]
    dsimp only
    rw [if_neg (show granted w.ticks ≠ false from Bool.noConfusion), hreserve]
    dsimp only
    rw [hreserve']
    dsimp only
    rw [if_neg (not_lt.2 hpages), hretain]
    simp only [Option.bind_some, World.addSeq, hseqs]
  · refine hw.of_counted hcounted.cfg hcounted.gen ?_
    intro k p hp
    rw [World.addSeq, seq_append] at hp
    split at hp
    · obtain rfl := Option.some.inj hp
      refine Or.inr ⟨?_, fun x hx => hw.pages src q hq x (List.mem_of_mem_take hx), ?_⟩
      · dsimp only
        rw [List.length_take, List.length_take, Nat.min_eq_left hpages, Nat.min_eq_left hcount]
      · dsimp only
        rw [List.length_take, Nat.min_eq_left hcount]
        omega
    · exact Or.inl ⟨k, by rw [← hp, hcounted.seq]; rfl⟩

end VgEngine.KvCache
