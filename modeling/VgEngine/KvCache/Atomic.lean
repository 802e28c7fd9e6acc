import VgEngine.KvCache.Standing
import VgEngine.KvCache.Isolation

/-! When an insertion is atomic. A sequence that is itself the snapshot at its path is closed before
it is forked, a snapshot is closed before the fork that is to replace it may fail, and a split
without memory loses what is below its edge. -/
namespace VgEngine.KvCache
open RadixTree RadixTree.Tree

variable {env : Nat → Bool} {w w' : World} {r seq count fp : Nat} {tainted : Bool}
  {status : Status} {q : KvSequence} {t : RadixNode} {path : List Nat}

section Lookups

theorem usable_of_isSome {v : NodeData} (h : (NodeData.usable v).isSome = true) :
    NodeData.usable v = v.snapshot := by
  unfold NodeData.usable at h ⊢
  cases htainted : v.tainted with
  | true =>
    rw [htainted] at h
    cases h
  | false => exact if_neg Bool.noConfusion

/-- What a lookup returns for what the walk found. -/
theorem radixLookup_found (ht : w.radixes[r]? = some t) (tokens : List Nat) :
    (w.radixLookup r tokens).map Prod.fst =
      some ((t.found NodeData.usable tokens).getD (0, none)) := by
  have hok : (fun v : NodeData => v.snapshot.isSome && !v.tainted) =
      fun v => (NodeData.usable v).isSome := by
    funext v
    unfold NodeData.usable
    cases v.tainted <;> simp
  unfold World.radixLookup found
  rw [ht]
  simp only [Option.bind_eq_bind, Option.bind_some, hok]
  rcases longest_spec (fun v => (NodeData.usable v).isSome) tokens 0 none t with
    ⟨k, v, hfound, haccept, -⟩ | ⟨hfound, -⟩
  · rw [hfound]
    change some (0 + k, v.snapshot) = some (0 + k, NodeData.usable v)
    rw [usable_of_isSome haccept.2.2.2]
  · rw [hfound]
    rfl

/-- Lookups in a tree that shows the same return the same. -/
theorem radixLookup_same {u : RadixNode} (ht : w.radixes[r]? = some t)
    (hradixes : w'.radixes = w.radixes.set r u)
    (hshown : ∀ path, u.shown NodeData.usable path = t.shown NodeData.usable path)
    (r' : Nat) (tokens : List Nat) :
    (w'.radixLookup r' tokens).map Prod.fst = (w.radixLookup r' tokens).map Prod.fst := by
  by_cases hr : r' = r
  · have hu : w'.radixes[r]? = some u := by
      rw [hradixes]
      exact List.getElem?_set_self (List.getElem?_eq_some_iff.1 ht).1
    rw [hr, radixLookup_found hu, radixLookup_found ht, found_of_shown fun p _ => hshown p]
  · have hsame : w'.radixes[r']? = w.radixes[r']? := by
      rw [hradixes]
      exact List.getElem?_set_ne (Ne.symm hr)
    cases htree : w.radixes[r']? with
    | none =>
      unfold World.radixLookup
      rw [hsame, htree]
      rfl
    | some x => rw [radixLookup_found (hsame.trans htree), radixLookup_found htree]

/-- The lookups in a tree tell all that it shows below its root. -/
theorem shown_of_lookups {u : RadixNode}
    (hlookups : ∀ tokens, (u.found NodeData.usable tokens).getD (0, none) =
      (t.found NodeData.usable tokens).getD (0, none)) {tokens : List Nat} (htokens : tokens ≠ []) :
    u.shown NodeData.usable tokens = t.shown NodeData.usable tokens := by
  have hlength : tokens.length ≠ 0 := fun h => htokens (List.length_eq_zero_iff.1 h)
  have hread : ∀ x : RadixNode, x.shown NodeData.usable tokens =
      if ((x.found NodeData.usable tokens).getD (0, none)).1 = tokens.length then
        ((x.found NodeData.usable tokens).getD (0, none)).2 else none := by
    intro x
    rw [shown_of_found htokens]
    cases x.found NodeData.usable tokens with
    | none => rw [Option.bind_none, Option.getD_none, if_neg hlength.symm]
    | some found => rfl
  rw [hread u, hread t, hlookups]

end Lookups

section Property

/-- The sequences are closed one after the other, each open when its turn comes. -/
def CloseReads : List Nat → World → Prop
  | [], _ => True
  | h :: hs, w => (w.seq h).isSome ∧ ∀ w', w.sequenceClose h = some w' → CloseReads hs w'

/-- Every sequence that an insertion reads is open: those it closes, and the one it forks. -/
def InsertReads (env : Nat → Bool) (w : World) (r seq count : Nat) : Prop :=
  ∀ t q, w.radixes[r]? = some t → w.seq seq = some q → count ≤ q.tokens.length →
    let path := q.tokens.take count
    let g := grow env path t w.ticks
    CloseReads g.freed (w.walk env r t path) ∧ (g.status = .ok →
      ∀ w1, World.closeAll g.freed (w.walk env r t path) = some w1 →
        (∀ old, (g.tree.valueAt .empty path).snapshot = some old → (w1.seq old).isSome) ∧
        ∀ w2, w1.closeReplaced g.tree path = some w2 → (w2.seq seq).isSome)

/-- No closed sequence is read, and after an error every lookup returns what it did, and the
snapshots of the trees are live and as they were. -/
structure InsertAtomic (env : Nat → Bool) (w : World) (r seq count fp : Nat) (tainted : Bool) :
    Prop where
  reads : InsertReads env w r seq count
  lookups : ∀ status w', w.radixInsert env r seq count fp tainted = some (status, w') →
    status ≠ .ok → ∀ r' tokens,
      (w'.radixLookup r' tokens).map Prod.fst = (w.radixLookup r' tokens).map Prod.fst
  snapshots : ∀ status w', w.radixInsert env r seq count fp tainted = some (status, w') →
    status ≠ .ok → ∀ k ∈ w'.owned, (w'.seq k).isSome ∧ w'.seq k = w.seq k

/-- No lookup can return a snapshot of the node or below it. -/
def Unused (c : RadixNode) : Prop := ∀ path, c.shown NodeData.usable path = none

/-- The split of the edge to `c`, if it is begun, loses nothing that a lookup can return: neither
`c` itself, nor, where the insertion then fails, one of its children. -/
def EdgeClean (env : Nat → Bool) (cfg : KvConfig) (count : Nat) (rest : List Nat) (c : RadixNode)
    (ticks : Nat) : Prop :=
  let g := splitGrants env rest (common rest c.label) c ticks
  g.lower = true → if g.placed = true then
    g.leaf = true ∧ forkGranted env cfg count g.ticks = true ∨ ∀ d ∈ g.lost, Unused d
  else Unused c

/-- The sequence is not the snapshot at the path, a fork that replaces a snapshot is granted, and
the split of an edge is clean. -/
structure PathClean (env : Nat → Bool) (w : World) (t : RadixNode) (seq : Nat) (path : List Nat) :
    Prop where
  other : (t.valueAt .empty path).snapshot ≠ some seq
  replaces : ReplaceGranted env w t path
  splits : ∀ rest c, t.cut path = some (rest, c) →
    EdgeClean env w.store.cfg path.length rest c w.ticks

def InsertClean (env : Nat → Bool) (w : World) (r seq count : Nat) : Prop :=
  ∀ t q, w.radixes[r]? = some t → w.seq seq = some q → count ≤ q.tokens.length →
    PathClean env w t seq (q.tokens.take count)

end Property

section Reads

theorem closeReads_of_live {hs : List Nat} (hnodup : hs.Nodup)
    (hlive : ∀ h ∈ hs, (w.seq h).isSome) : CloseReads hs w := by
  induction hs generalizing w with
  | nil => exact trivial
  | cons h hs ih =>
    rw [List.nodup_cons] at hnodup
    refine ⟨hlive h List.mem_cons_self, fun w1 hclose => ih hnodup.2 fun k hk => ?_⟩
    have hne : k ∉ [h] := fun hmem => hnodup.1 (List.mem_singleton.1 hmem ▸ hk)
    rw [(sequenceClose_closed hclose).seq, if_neg hne]
    exact hlive k (List.mem_cons_of_mem h hk)

/-- The reads are of open sequences unless the insertion replaces the sequence it forks. -/
theorem Standing.insertReads (hw : Standing w) (hlive : (w.seq seq).isSome)
    (hother : ∀ t q, w.radixes[r]? = some t → w.seq seq = some q → count ≤ q.tokens.length →
      (t.valueAt .empty (q.tokens.take count)).snapshot ≠ some seq) :
    InsertReads env w r seq count := by
  intro t q ht hq hcount
  have hwalked := hw.trees.walked env ht (q.tokens.take count)
  refine ⟨closeReads_of_live hwalked.nodup hwalked.live, fun hok w1 hclose => ?_⟩
  rw [grow_ok env hok] at hclose
  obtain rfl := Option.some.inj hclose
  rw [grow_snapshot hok]
  refine ⟨fun old hold => ?_, fun w2 hreplace => ?_⟩
  · exact hw.trees.live old (mem_owned ht (snapshot_mem hold))
  · have hclosed := closeReplaced_closed hreplace
    rw [grow_snapshot hok] at hclosed
    have hne := hother t q ht hq hcount
    rw [hclosed.seq, if_neg fun hmem => hne (Option.mem_toList.1 hmem)]
    exact hlive

end Reads

section Failure

/-- What a failed insertion leaves: the tree of its walk, with the snapshots of the trees as they
were; and where the walk was finished, the fork was refused. -/
structure Failed (env : Nat → Bool) (w w' : World) (r : Nat) (t : RadixNode) (path : List Nat) :
    Prop where
  radixes : w'.radixes = w.radixes.set r (grow env path t w.ticks).tree
  seq : ∀ k ∈ w'.owned, w'.seq k = w.seq k
  refused : (grow env path t w.ticks).status = .ok →
    forkGranted env w.store.cfg path.length (grow env path t w.ticks).ticks = false

theorem Standing.failed (hw : Standing w) (ht : w.radixes[r]? = some t) (hq : w.seq seq = some q)
    (hcount : count ≤ q.tokens.length) (hgranted : ReplaceGranted env w t (q.tokens.take count))
    (hinsert : w.radixInsert env r seq count fp tainted = some (status, w'))
    (hstatus : status ≠ .ok) : Failed env w w' r t (q.tokens.take count) := by
  have hlength : (q.tokens.take count).length ≤ q.tokens.length := List.length_take_le' _ _
  have hwalked := hw.trees.walked env ht (q.tokens.take count)
  obtain ⟨w1, hclose, hend⟩ := radixInsert_ends ht hq hcount hinsert
  rcases hend with ⟨hfailed, -, rfl⟩ | ⟨hok, w2, result, w3, hreplace, hfork, hend⟩
  · have hclosed := closeAll_closed hclose
    refine ⟨hclosed.radixes, fun k hk => ?_, fun hok => absurd hok hfailed⟩
    have howned : w'.owned = (w.walk env r t (q.tokens.take count)).owned := by
      unfold World.owned
      rw [hclosed.radixes]
    rw [hclosed.seq, if_neg (hwalked.apart k (howned ▸ hk))]
    rfl
  · rcases hend with ⟨rfl, rfl⟩ | ⟨h, -, hsucceeded, -⟩
    · rw [grow_ok env hok] at hclose
      obtain rfl := Option.some.inj hclose
      have hclosed := closeReplaced_closed hreplace
      rw [grow_snapshot hok] at hclosed
      have hnone : (t.valueAt .empty (q.tokens.take count)).snapshot = none := by
        by_contra hold
        obtain ⟨k, hk⟩ := fork_of_replaced hq hlength hgranted hold hclosed hfork
        cases hk
      rw [hnone] at hclosed
      obtain ⟨-, hradixes, ⟨hseqs, -⟩ | ⟨p, p', -, -, -, -, hresult, -⟩⟩ := sequenceFork_seqs hfork
      · refine ⟨hradixes.trans hclosed.radixes, fun k _ => ?_, fun _ => ?_⟩
        · rw [seq_of_seqs hseqs, hclosed.seq]
          exact if_neg List.not_mem_nil
        · by_contra hgranted'
          have hq2 : w2.seq seq = some q := by
            rw [hclosed.seq]
            exact (if_neg List.not_mem_nil).trans hq
          obtain ⟨k, hk⟩ := sequenceFork_granted hq2 hlength (by
            rw [hclosed.ticks, hclosed.cfg]
            exact Bool.not_eq_false _ ▸ hgranted') hfork
          cases hk
      · cases hresult
    · exact absurd hsucceeded hstatus

/-- A failed insertion shows what the tree showed. -/
theorem walk_shown (ht : t.Proper)
    (hsplits : ∀ rest c, t.cut path = some (rest, c) →
      EdgeClean env w.store.cfg path.length rest c w.ticks)
    (hrefused : (grow env path t w.ticks).status = .ok →
      forkGranted env w.store.cfg path.length (grow env path t w.ticks).ticks = false)
    (p : List Nat) :
    (grow env path t w.ticks).tree.shown NodeData.usable p = t.shown NodeData.usable p := by
  cases hcut : t.cut path with
  | none => exact grow_uncut env rfl hcut w.ticks p
  | some found =>
    obtain ⟨rest, c⟩ := found
    obtain ⟨hstatus, -, hends, hshown⟩ := grow_cut env NodeData.usable ht hcut w.ticks
    obtain ⟨hc, hleads, hshort, -⟩ := cut_spec hcut ht
    refine hshown.2 ((splitEdge_shown_iff rfl hc hleads hshort w.ticks).2 fun hlower => ?_) p
    have hclean := hsplits rest c hcut hlower
    cases hplaced : (splitGrants env rest (common rest c.label) c w.ticks).placed with
    | false =>
      rw [hplaced, if_neg Bool.noConfusion] at hclean
      exact hclean
    | true =>
      rw [hplaced, if_pos rfl] at hclean
      refine hclean.resolve_left fun ⟨hleaf, hgranted⟩ => ?_
      obtain ⟨kept, -, -, hfinished⟩ := splitEdge_halved hlower hplaced
      obtain ⟨hok, hticks, -⟩ := hfinished hleaf
      have hrefused' := hrefused (hstatus.trans hok)
      rw [hends, hticks, hgranted] at hrefused'
      cases hrefused'

/-- A clean insertion is atomic. -/
theorem Standing.insertAtomic (hw : Standing w) (hlive : (w.seq seq).isSome)
    (hclean : InsertClean env w r seq count) : InsertAtomic env w r seq count fp tainted := by
  obtain ⟨q, hq⟩ := Option.isSome_iff_exists.1 hlive
  -- an insertion of more tokens than there are changes nothing
  have hcases : ∀ {status w'}, w.radixInsert env r seq count fp tainted = some (status, w') →
      status ≠ .ok → w' = w ∨ ∃ t, w.radixes[r]? = some t ∧
        PathClean env w t seq (q.tokens.take count) ∧ Failed env w w' r t (q.tokens.take count) := by
    intro status w' hinsert hstatus
    obtain ⟨t, ht, -⟩ := Option.bind_eq_some_iff.1 hinsert
    by_cases hcount : count ≤ q.tokens.length
    · have hpath := hclean t q ht hq hcount
      exact .inr ⟨t, ht, hpath, hw.failed ht hq hcount hpath.replaces hinsert hstatus⟩
    · unfold World.radixInsert at hinsert
      rw [ht, hq] at hinsert
      simp only [Option.bind_eq_bind, Option.bind_some] at hinsert
      rw [if_pos (not_le.1 hcount)] at hinsert
      exact .inl (Prod.mk.inj (Option.some.inj hinsert)).2.symm
  refine ⟨hw.insertReads hlive fun t q ht hq hcount => (hclean t q ht hq hcount).other, ?_, ?_⟩
  · intro status w' hinsert hstatus r' tokens
    rcases hcases hinsert hstatus with rfl | ⟨t, ht, hpath, hfailed⟩
    · rfl
    · have hproper := hw.proper t (List.mem_of_getElem? ht)
      exact radixLookup_same ht hfailed.radixes
        (walk_shown hproper hpath.splits hfailed.refused) r' tokens
  · intro status w' hinsert hstatus k hk
    rcases hcases hinsert hstatus with rfl | ⟨t, ht, hpath, hfailed⟩
    · exact ⟨hw.trees.live k hk, rfl⟩
    · have hstands := hw.radixInsert ht hq (fun _ => hpath.replaces) hinsert
      exact ⟨hstands.trees.live k hk, hfailed.seq k hk⟩

end Failure

section Needed

/-- An insertion in the terms of its walk. -/
theorem radixInsert_walk (ht : w.radixes[r]? = some t) (hq : w.seq seq = some q)
    (hcount : count ≤ q.tokens.length) :
    w.radixInsert env r seq count fp tainted =
      (World.closeAll (grow env (q.tokens.take count) t w.ticks).freed
        (w.walk env r t (q.tokens.take count))).bind fun w1 =>
          if (grow env (q.tokens.take count) t w.ticks).status = .ok then
            w1.setSnapshot env r (grow env (q.tokens.take count) t w.ticks).tree seq
              (q.tokens.take count) fp tainted
          else some ((grow env (q.tokens.take count) t w.ticks).status, w1) := by
  unfold World.radixInsert
  rw [ht, hq]
  simp only [Option.bind_eq_bind, Option.bind_some]
  rw [if_neg (not_lt.2 hcount)]
  rfl

variable (env) in
theorem Current.walk (hw : Current w) (r : Nat) (t : RadixNode) (path : List Nat) :
    Current (w.walk env r t path) := hw

/-- Where the walk fails, so does the insertion. -/
theorem Standing.walk_fails (hw : Standing w) (hcurrent : Current w) (ht : w.radixes[r]? = some t)
    (hq : w.seq seq = some q) (hcount : count ≤ q.tokens.length)
    (hfailed : (grow env (q.tokens.take count) t w.ticks).status ≠ .ok) :
    ∃ status w', w.radixInsert env r seq count fp tainted = some (status, w') ∧ status ≠ .ok := by
  have hwalked := hw.trees.walked env ht (q.tokens.take count)
  obtain ⟨w1, hclose⟩ := (hcurrent.walk env r t (q.tokens.take count)).closeAll hwalked.nodup
    hwalked.live
  refine ⟨_, w1, ?_, hfailed⟩
  rw [radixInsert_walk ht hq hcount]
  have hsame : World.closeAll (grow env (q.tokens.take count) t w.ticks).freed
    (w.walk env r t (q.tokens.take count)) = some w1 := hclose
  rw [hsame, Option.bind_some, if_neg hfailed]

variable (fp tainted) in
/-- Where the fork is refused, so does the insertion, after it closed the snapshot at its path. -/
theorem Standing.fork_fails (hw : Standing w) (hcurrent : Current w) (ht : w.radixes[r]? = some t)
    (hq : w.seq seq = some q) (hcount : count ≤ q.tokens.length)
    (hother : (t.valueAt .empty (q.tokens.take count)).snapshot ≠ some seq)
    (hok : (grow env (q.tokens.take count) t w.ticks).status = .ok)
    (hrefused : forkGranted env w.store.cfg (q.tokens.take count).length
      (grow env (q.tokens.take count) t w.ticks).ticks = false) :
    ∃ status w', w.radixInsert env r seq count fp tainted = some (status, w') ∧ status ≠ .ok ∧
      w'.radixes = w.radixes.set r (grow env (q.tokens.take count) t w.ticks).tree ∧
      ∀ old, (t.valueAt .empty (q.tokens.take count)).snapshot = some old → w'.seq old = none := by
  have hlength : (q.tokens.take count).length ≤ q.tokens.length := List.length_take_le' _ _
  have hreplace : ∃ w2, (w.walk env r t (q.tokens.take count)).closeReplaced
      (grow env (q.tokens.take count) t w.ticks).tree (q.tokens.take count) = some w2 := by
    unfold World.closeReplaced
    rw [grow_snapshot hok]
    cases hold : (t.valueAt .empty (q.tokens.take count)).snapshot with
    | none => exact ⟨_, rfl⟩
    | some old =>
      exact (hcurrent.walk env r t (q.tokens.take count)).sequenceClose
        (hw.trees.live old (mem_owned ht (snapshot_mem hold)))
  obtain ⟨w2, hreplace⟩ := hreplace
  have hclosed := closeReplaced_closed hreplace
  rw [grow_snapshot hok] at hclosed
  have hq2 : w2.seq seq = some q := by
    rw [hclosed.seq, if_neg fun hmem => hother (Option.mem_toList.1 hmem)]
    exact hq
  obtain ⟨status, ticks, hstatus, hfork⟩ := sequenceFork_refused env hq2 hlength (by
    rw [hclosed.ticks, hclosed.cfg]
    exact hrefused)
  refine ⟨status, { w2 with ticks := ticks }, ?_, hstatus, hclosed.radixes, fun old hold => ?_⟩
  · rw [radixInsert_walk ht hq hcount, grow_ok env hok, World.closeAll, Option.bind_some,
      if_pos hok, World.setSnapshot, hreplace]
    simp only [Option.bind_eq_bind, Option.bind_some, hfork]
  · have hseq := hclosed.seq old
    rw [if_pos (Option.mem_toList.2 hold)] at hseq
    exact hseq

theorem value_grow (path : List Nat) (t : RadixNode) (ticks : Nat) :
    (grow env path t ticks).tree.value = t.value := by
  cases t
  rw [grow]
  split <;> rfl

/-- An atomic insertion that fails shows what the tree showed. -/
theorem InsertAtomic.shown (ha : InsertAtomic env w r seq count fp tainted)
    (ht : w.radixes[r]? = some t) (hstatus : status ≠ .ok)
    (hinsert : w.radixInsert env r seq count fp tainted = some (status, w'))
    (hradixes : w'.radixes = w.radixes.set r (grow env path t w.ticks).tree) (p : List Nat) :
    (grow env path t w.ticks).tree.shown NodeData.usable p = t.shown NodeData.usable p := by
  by_cases hp : p = []
  · rw [hp, shown_nil, shown_nil, value_grow]
  · refine shown_of_lookups (fun tokens => ?_) hp
    have hlookup := ha.lookups status w' hinsert hstatus r tokens
    have hu : w'.radixes[r]? = some (grow env path t w.ticks).tree := by
      rw [hradixes]
      exact List.getElem?_set_self (List.getElem?_eq_some_iff.1 ht).1
    rw [radixLookup_found hu, radixLookup_found ht] at hlookup
    exact Option.some.inj hlookup

/-- An atomic insertion is clean, while the pages are where the sequences point. -/
theorem Standing.insertClean (hw : Standing w) (hcurrent : Current w)
    (ha : InsertAtomic env w r seq count fp tainted) : InsertClean env w r seq count := by
  intro t q ht hq hcount
  have hproper := hw.proper t (List.mem_of_getElem? ht)
  have hother : (t.valueAt .empty (q.tokens.take count)).snapshot ≠ some seq := by
    intro hself
    have hgrow := grow_replaces env w.ticks
      (show (t.valueAt .empty (q.tokens.take count)).snapshot ≠ none by rw [hself]; simp)
    have hlive : (w.seq seq).isSome := by rw [hq]; rfl
    obtain ⟨w2, hclose⟩ := (hcurrent.walk env r t (q.tokens.take count)).sequenceClose hlive
    have hreads := (ha.reads t q ht hq hcount).2
    rw [hgrow] at hreads
    have hopen := (hreads rfl _ rfl).2 w2 (by
      unfold World.closeReplaced
      rw [hself]
      exact hclose)
    rw [(sequenceClose_closed hclose).seq, if_pos (List.mem_singleton.2 rfl)] at hopen
    cases hopen
  have hgranted : ReplaceGranted env w t (q.tokens.take count) := by
    intro hold
    obtain ⟨old, hold'⟩ := Option.ne_none_iff_exists'.1 hold
    have hgrow := grow_replaces env w.ticks hold
    by_contra hrefused
    rw [Bool.not_eq_true] at hrefused
    obtain ⟨status, w', hinsert, hstatus, hradixes, hclosed⟩ := hw.fork_fails fp tainted
      hcurrent ht hq hcount hother (by rw [hgrow]) (by rw [hgrow]; exact hrefused)
    have hmem : old ∈ w'.owned := by
      refine mem_owned (r := r) ?_ (snapshot_mem hold')
      rw [hradixes, hgrow]
      exact List.getElem?_set_self (List.getElem?_eq_some_iff.1 ht).1
    have hlive := (ha.snapshots status w' hinsert hstatus old hmem).1
    rw [hclosed old hold'] at hlive
    cases hlive
  refine ⟨hother, hgranted, fun rest c hcut => ?_⟩
  obtain ⟨hc, hleads, hshort, hget⟩ := cut_spec hcut hproper
  obtain ⟨hstatus, -, hends, hshown⟩ := grow_cut env NodeData.usable hproper hcut w.ticks
  -- a failure after the split leaves what is shown, so the split lost nothing
  have hlost : (∃ status w', w.radixInsert env r seq count fp tainted = some (status, w') ∧
      status ≠ .ok) → _ := fun ⟨status, w', hinsert, hne⟩ =>
    (splitEdge_shown_iff rfl hc hleads hshort w.ticks).1 (hshown.1 fun p =>
      ha.shown ht hne hinsert (hw.failed ht hq hcount hgranted hinsert hne).radixes p)
  intro hlower
  cases hplaced : (splitGrants env rest (common rest c.label) c w.ticks).placed with
  | false =>
    have hunplaced := (splitEdge_unplaced hlower hplaced).1
    have hclean := hlost (hw.walk_fails hcurrent ht hq hcount (by
      rw [hstatus, hunplaced]
      decide)) hlower
    rw [hplaced] at hclean
    exact hclean
  | true =>
    rw [if_pos rfl]
    by_cases hgood : (splitGrants env rest (common rest c.label) c w.ticks).leaf = true ∧
        forkGranted env w.store.cfg (q.tokens.take count).length
          (splitGrants env rest (common rest c.label) c w.ticks).ticks = true
    · exact .inl hgood
    · right
      obtain ⟨kept, -, hunfinished, hfinished⟩ := splitEdge_halved hlower hplaced
      have hfails : ∃ status w', w.radixInsert env r seq count fp tainted = some (status, w') ∧
          status ≠ .ok := by
        cases hleaf : (splitGrants env rest (common rest c.label) c w.ticks).leaf with
        | false =>
          refine hw.walk_fails hcurrent ht hq hcount ?_
          rw [hstatus, (hunfinished hleaf).1]
          decide
        | true =>
          obtain ⟨hok, hticks, -⟩ := hfinished hleaf
          rw [hleaf, not_and, Bool.not_eq_true] at hgood
          obtain ⟨status, w', hinsert, hne, -⟩ := hw.fork_fails fp tainted
            hcurrent ht hq hcount hother (hstatus.trans hok) (by
              rw [hends, hticks]
              exact hgood rfl)
          exact ⟨status, w', hinsert, hne⟩
      have hclean := hlost hfails hlower
      rw [hplaced, if_pos rfl] at hclean
      exact hclean

end Needed

section Runs

/-- A legal call whose insertion is clean. -/
def Clean (env : Nat → Bool) (w : World) (call : Call) : Prop :=
  Legal w call ∧ match call with
    | .radixInsert r seq count _ _ => InsertClean env w r seq count
    | _ => True

theorem Clean.replacing {call : Call} (h : Clean env w call) : Replacing env w call := by
  cases call with
  | radixInsert r seq count fp tainted =>
    exact fun t q ht hq hcount => (h.2 t q ht hq hcount).replaces
  | _ => exact trivial

/-- In a run of clean calls every further insertion that is clean is atomic, and while the pages are
where the sequences point, no other is. -/
theorem radixInsert_atomic (env : Nat → Bool) {cfg : KvConfig} {store : KvStore}
    (hopen : kvOpen cfg = .ok store) {calls : List Call} {w : World}
    (hclean : Run.Guarded (World.step env) (Clean env) (World.opened store) calls)
    (hexec : Run.exec (World.step env) (World.opened store) calls = some w)
    {r seq count fp : Nat} {tainted : Bool} (hlegal : Legal w (.radixInsert r seq count fp tainted)) :
    (InsertClean env w r seq count → InsertAtomic env w r seq count fp tainted) ∧
      (Current w → InsertAtomic env w r seq count fp tainted → InsertClean env w r seq count) := by
  have hstanding : Run.Always (World.step env) Standing (World.opened store) calls := by
    refine Run.always_of_guarded ?_ (standing_opened hopen) hclean
    exact fun w call w' hw hcall hstep => hw.step hcall.1 hcall.replacing hstep
  have hw : Standing w := hstanding calls w (List.prefix_refl _) hexec
  exact ⟨hw.insertAtomic hlegal.2, fun hcurrent ha => hw.insertClean hcurrent ha⟩

/-- An insertion that is granted its fork, and its split or one without children to lose. -/
def insertGranted (env : Nat → Bool) (w : World) (r seq count : Nat) : Bool :=
  match w.radixes[r]?, w.seq seq with
  | some t, some q =>
    let path := q.tokens.take count
    decide ((t.valueAt .empty path).snapshot ≠ some seq) &&
      ((t.valueAt .empty path).snapshot.isNone ||
        forkGranted env w.store.cfg path.length w.ticks) &&
      match t.cut path with
      | none => true
      | some (rest, c) =>
        let g := splitGrants env rest (common rest c.label) c w.ticks
        g.placed && (g.leaf && forkGranted env w.store.cfg path.length g.ticks || g.lost.isEmpty)
  | _, _ => true

theorem insertClean_of_granted (h : insertGranted env w r seq count = true) :
    InsertClean env w r seq count := by
  intro t q ht hq _
  unfold insertGranted at h
  rw [ht, hq] at h
  dsimp only at h
  rw [Bool.and_eq_true, Bool.and_eq_true, decide_eq_true_iff, Bool.or_eq_true] at h
  obtain ⟨⟨hother, hreplaces⟩, hsplits⟩ := h
  refine ⟨hother, fun hold => ?_, fun rest c hcut _ => ?_⟩
  · exact hreplaces.resolve_left fun hnone => hold (Option.isNone_iff_eq_none.1 hnone)
  · rw [hcut] at hsplits
    dsimp only at hsplits
    rw [Bool.and_eq_true, Bool.or_eq_true, Bool.and_eq_true] at hsplits
    rw [if_pos hsplits.1]
    refine hsplits.2.imp_right fun hnil d hd => ?_
    rw [List.isEmpty_iff.1 hnil] at hd
    exact absurd hd List.not_mem_nil

/-- A legal call whose insertion is granted its fork. -/
def GrantedCall (env : Nat → Bool) (w : World) (call : Call) : Prop :=
  Legal w call ∧ (match call with
    | .radixInsert r seq count _ _ => insertGranted env w r seq count
    | _ => true) = true

instance (w : World) (call : Call) : Decidable (GrantedCall env w call) :=
  inferInstanceAs (Decidable (_ ∧ _))

theorem GrantedCall.clean {call : Call} (h : GrantedCall env w call) : Clean env w call := by
  refine ⟨h.1, ?_⟩
  cases call with
  | radixInsert r seq count fp tainted => exact insertClean_of_granted h.2
  | _ => exact trivial

/-- Two sequences that part after one token, the first of them in a tree. -/
def partedCalls : List Call :=
  [.sequenceInit, .append 0 1, .append 0 2, .sequenceInit, .append 1 1, .append 1 3, .radixOpen,
    .radixInsert 0 0 2 5 false]

/-- The second is refused its leaf after the edge was split, and the first is still found. -/
theorem radixInsert_atomic_leaf :
    ∃ w w', Run.exec (World.step fun n => n != 20) (World.opened (.opened pairConfig))
        partedCalls = some w ∧
      w.radixInsert (fun n => n != 20) 0 1 2 6 false = some (.nomem, w') ∧
      InsertAtomic (fun n => n != 20) w 0 1 2 6 false := by
  have hgranted : Run.Guarded (World.step fun n => n != 20) (GrantedCall fun n => n != 20)
      (World.opened (.opened pairConfig)) partedCalls :=
    Run.guarded_of_check (by decide +kernel)
  have hend : (Run.exec (World.step fun n => n != 20) (World.opened (.opened pairConfig))
      partedCalls).any (fun w =>
        decide (GrantedCall (fun n => n != 20) w (.radixInsert 0 1 2 6 false)) &&
          (w.radixInsert (fun n => n != 20) 0 1 2 6 false).any fun r => decide (r.1 = .nomem)) =
        true := by
    decide +kernel
  obtain ⟨w, hexec, hcall⟩ := (Option.any_eq_true _ _).1 hend
  rw [Bool.and_eq_true, decide_eq_true_iff] at hcall
  obtain ⟨⟨status, w'⟩, hinsert, hstatus⟩ := (Option.any_eq_true _ _).1 hcall.2
  rw [decide_eq_true_iff] at hstatus
  subst hstatus
  have hopen : kvOpen pairConfig = .ok (.opened pairConfig) := rfl
  exact ⟨w, w', hexec, hinsert, (radixInsert_atomic _ hopen (hgranted.imp fun _ _ => GrantedCall.clean)
    hexec hcall.1.1).1 hcall.1.clean.2⟩

/-- The snapshot that a lookup returned is inserted at its own path. -/
theorem radixInsert_closes :
    ¬ ∀ (env : Nat → Bool) (cfg : KvConfig) (store : KvStore) (calls : List Call) (w : World)
      (r seq count fp : Nat) (tainted : Bool), kvOpen cfg = .ok store →
      Run.Guarded (World.step env) Legal (World.opened store) calls →
      Run.exec (World.step env) (World.opened store) calls = some w →
      Legal w (.radixInsert r seq count fp tainted) →
      InsertAtomic env w r seq count fp tainted := by
  intro hclaim
  have hlegal : Run.Guarded (World.step fun _ => true) Legal (World.opened (.opened pairConfig))
      [.sequenceInit, .append 0 1, .radixOpen, .radixInsert 0 0 1 5 false, .radixLookup 0 [1]] :=
    Run.guarded_of_check (by decide +kernel)
  have hend : (Run.exec (World.step fun _ => true) (World.opened (.opened pairConfig))
      [.sequenceInit, .append 0 1, .radixOpen, .radixInsert 0 0 1 5 false, .radixLookup 0 [1]]).any
        (fun w => decide (Legal w (.radixInsert 0 1 1 5 false)) &&
          (w.radixLookup 0 [1]).any (fun r => decide (r.1 = (1, some 1))) &&
          match w.radixes[0]?, w.seq 1 with
          | some t, some q => decide (1 ≤ q.tokens.length) &&
              decide ((t.valueAt .empty (q.tokens.take 1)).snapshot = some 1) &&
              ((w.walk (fun _ => true) 0 t (q.tokens.take 1)).sequenceClose 1).isSome
          | _, _ => false) = true := by
    decide +kernel
  obtain ⟨w, hexec, hcall⟩ := (Option.any_eq_true _ _).1 hend
  rw [Bool.and_eq_true, Bool.and_eq_true, decide_eq_true_iff] at hcall
  obtain ⟨⟨hlegal', -⟩, hself⟩ := hcall
  have hopen : kvOpen pairConfig = .ok (.opened pairConfig) := rfl
  have hreads := (hclaim _ _ _ _ w 0 1 1 5 false hopen hlegal hexec hlegal').reads
  split at hself
  · rename_i t q ht hq
    rw [Bool.and_eq_true, Bool.and_eq_true, decide_eq_true_iff, decide_eq_true_iff] at hself
    obtain ⟨⟨hcount, hsnapshot⟩, hclose⟩ := hself
    obtain ⟨w2, hclose⟩ := Option.isSome_iff_exists.1 hclose
    have hgrow := grow_replaces (fun _ => true) w.ticks
      (show (t.valueAt .empty (q.tokens.take 1)).snapshot ≠ none by rw [hsnapshot]; simp)
    have hafter := (hreads t q ht hq hcount).2
    rw [hgrow] at hafter
    have hread := (hafter rfl _ rfl).2 w2 (by
      unfold World.closeReplaced
      rw [hsnapshot]
      exact hclose)
    rw [(sequenceClose_closed hclose).seq, if_pos (List.mem_singleton.2 rfl)] at hread
    cases hread
  · cases hself

end Runs

end VgEngine.KvCache
