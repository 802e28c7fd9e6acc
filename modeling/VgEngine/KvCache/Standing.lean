import VgEngine.KvCache.Identity
import VgEngine.KvCache.Lineage
import VgEngine.KvCache.Losses

/-! What the calls on a store leave of its radix trees, wherever its pages may be: the snapshots
stay live and owned once, and the children of a node apart. -/
namespace VgEngine.KvCache
open RadixTree RadixTree.Tree

variable {env : Nat → Bool} {w w' : World} {h : Nat} {q : KvSequence}

section Closed

/-- After sequences were closed: they are gone, and all else that is not of the pages stays. -/
structure Closed (w w' : World) (hs : List Nat) : Prop where
  seq : ∀ k, w'.seq k = if k ∈ hs then none else w.seq k
  length : w'.seqs.length = w.seqs.length
  radixes : w'.radixes = w.radixes
  ticks : w'.ticks = w.ticks
  cfg : w'.store.cfg = w.store.cfg
  gen : w'.store.gen = w.store.gen

theorem Closed.refl (w : World) : Closed w w [] := ⟨fun _ => rfl, rfl, rfl, rfl, rfl, rfl⟩

theorem Closed.trans {w'' : World} {hs hs' : List Nat} (h : Closed w w' hs)
    (h' : Closed w' w'' hs') : Closed w w'' (hs ++ hs') := by
  refine ⟨fun k => ?_, h'.length.trans h.length, h'.radixes.trans h.radixes, h'.ticks.trans h.ticks,
    h'.cfg.trans h.cfg, h'.gen.trans h.gen⟩
  rw [h'.seq, h.seq]
  by_cases hk : k ∈ hs
  · simp [hk]
  · by_cases hk' : k ∈ hs' <;> simp [hk, hk']

/-- Dropping pages changes their reference counts alone. -/
theorem dropAll_pages {xs : List Slot} (hdrop : World.dropAll xs w = some w') :
    ∃ cells, w' = w.withStore { w.store with cells := cells } := by
  induction xs generalizing w with
  | nil => exact ⟨w.store.cells, (Option.some.inj hdrop).symm⟩
  | cons x xs ih =>
    obtain ⟨w1, hone, hrest⟩ := Option.bind_eq_some_iff.1 hdrop
    obtain ⟨page, -, rfl⟩ := Option.map_eq_some_iff.1 hone
    obtain ⟨cells, rfl⟩ := ih hrest
    exact ⟨cells, rfl⟩

theorem sequenceClose_closed (hclose : w.sequenceClose h = some w') : Closed w w' [h] := by
  obtain ⟨q, hq, hdrop⟩ := Option.bind_eq_some_iff.1 hclose
  obtain ⟨cells, rfl⟩ := dropAll_pages hdrop
  refine ⟨fun k => ?_, List.length_set, rfl, rfl, rfl, rfl⟩
  have hset := seq_setSeq (seq_lt hq) none k
  simp only [List.mem_singleton]
  exact hset

theorem closeAll_closed {hs : List Nat} (hclose : World.closeAll hs w = some w') :
    Closed w w' hs := by
  induction hs generalizing w with
  | nil => exact Option.some.inj hclose ▸ Closed.refl w
  | cons h hs ih =>
    obtain ⟨w1, hone, hrest⟩ := Option.bind_eq_some_iff.1 hclose
    exact (sequenceClose_closed hone).trans (ih hrest)

theorem closeReplaced_closed {t : RadixNode} {path : List Nat}
    (hclose : w.closeReplaced t path = some w') :
    Closed w w' (t.valueAt .empty path).snapshot.toList := by
  unfold World.closeReplaced at hclose
  cases hold : (t.valueAt .empty path).snapshot with
  | none =>
    rw [hold] at hclose
    exact Option.some.inj hclose ▸ Closed.refl w
  | some old =>
    rw [hold] at hclose
    exact sequenceClose_closed hclose

/-- The pages of every sequence are pointed to in the array there is. -/
def Current (w : World) : Prop :=
  ∀ h q, w.seq h = some q → ∀ x ∈ q.pages, x.ptr.gen = w.store.gen

theorem Current.closed {hs : List Nat} (hw : Current w) (hclosed : Closed w w' hs) :
    Current w' := by
  intro h q hq x hx
  rw [hclosed.seq] at hq
  rw [hclosed.gen]
  split at hq
  · cases hq
  · exact hw h q hq x hx

theorem dropAll_defined {xs : List Slot} (hcurrent : ∀ x ∈ xs, x.ptr.gen = w.store.gen) :
    ∃ w', World.dropAll xs w = some w' := by
  induction xs generalizing w with
  | nil => exact ⟨w, rfl⟩
  | cons x xs ih =>
    have hderef : w.deref x.ptr = some (w.store.cells x.ptr.index) :=
      if_pos (hcurrent x List.mem_cons_self)
    rw [World.dropAll, World.pageDrop, hderef]
    exact ih fun y hy => hcurrent y (List.mem_cons_of_mem x hy)

theorem Current.sequenceClose (hw : Current w) (hlive : (w.seq h).isSome) :
    ∃ w', w.sequenceClose h = some w' := by
  obtain ⟨q, hq⟩ := Option.isSome_iff_exists.1 hlive
  obtain ⟨w', hdrop⟩ := dropAll_defined (w := w.setSeq h none) (hw h q hq)
  exact ⟨w', by rw [World.sequenceClose, hq]; exact hdrop⟩

theorem Current.closeAll {hs : List Nat} (hw : Current w) (hnodup : hs.Nodup)
    (hlive : ∀ h ∈ hs, (w.seq h).isSome) : ∃ w', World.closeAll hs w = some w' := by
  induction hs generalizing w with
  | nil => exact ⟨w, rfl⟩
  | cons h hs ih =>
    obtain ⟨w1, hone⟩ := hw.sequenceClose (hlive h List.mem_cons_self)
    have hclosed := sequenceClose_closed hone
    rw [List.nodup_cons] at hnodup
    obtain ⟨w2, hrest⟩ := ih (hw.closed hclosed) hnodup.2 (by
      intro k hk
      have hne : k ≠ h := fun heq => hnodup.1 (heq ▸ hk)
      rw [hclosed.seq, if_neg (by simpa using hne)]
      exact hlive k (List.mem_cons_of_mem h hk))
    exact ⟨w2, by rw [World.closeAll, hone]; exact hrest⟩

end Closed

section Requests

variable (env)

/-- Whether `seq_reserve` or `pages_reserve` of an empty array gets room for `n` items, and the tick
after. -/
def reserveGranted (n first ticks : Nat) : Bool × Nat :=
  if n = 0 then (true, ticks)
  else match World.growCapacity 65 n first with
    | none => (false, ticks)
    | some _ => (env ticks, ticks + 1)

/-- Whether `vg_kv_sequence_fork` of `count` tokens gets the sequence and its two arrays. -/
def forkGranted (cfg : KvConfig) (count ticks : Nat) : Bool :=
  let (tokens, ticks') := reserveGranted env count 256 (ticks + 1)
  env ticks && tokens && (reserveGranted env (World.pagesFor cfg count) 16 ticks').1

theorem reserve_answered (w : World) (n first : Nat) :
    ∃ result, w.reserve env n 0 first =
        (result, { w with ticks := (reserveGranted env n first w.ticks).2 }) ∧
      ((reserveGranted env n first w.ticks).1 = true → ∃ cap, result = .ok cap) ∧
      ((reserveGranted env n first w.ticks).1 = false →
        ∃ status, status ≠ .ok ∧ result = .error status) := by
  unfold World.reserve reserveGranted
  by_cases hn : n = 0
  · rw [if_pos (Nat.le_zero.2 hn), if_pos hn]
    exact ⟨_, rfl, fun _ => ⟨0, rfl⟩, fun h => Bool.noConfusion h⟩
  · rw [if_neg (mt Nat.le_zero.1 hn), if_neg hn, if_pos rfl]
    cases World.growCapacity 65 n first with
    | none => exact ⟨_, rfl, fun h => Bool.noConfusion h, fun _ => ⟨.range, by decide, rfl⟩⟩
    | some cap =>
      unfold World.ask
      dsimp only
      refine ⟨_, rfl, fun h => ⟨cap, if_pos h⟩, fun h => ⟨.nomem, by decide, ?_⟩⟩
      rw [h]
      rfl

variable {env}

variable (env) in
/-- A fork that is refused its memory fails and changes nothing. -/
theorem sequenceFork_refused {src count : Nat} (hq : w.seq src = some q)
    (hcount : count ≤ q.tokens.length)
    (hrefused : forkGranted env w.store.cfg count w.ticks = false) :
    ∃ status ticks, status ≠ .ok ∧
      w.sequenceFork env src count = some (.error status, { w with ticks := ticks }) := by
  unfold World.sequenceFork World.ask
  rw [hq]
  simp only [Option.bind_eq_bind, Option.bind_some]
  rw [if_neg (not_lt.2 hcount)]
  unfold forkGranted at hrefused
  dsimp only at hrefused
  cases hfirst : env w.ticks with
  | false => exact ⟨.nomem, w.ticks + 1, by decide, rfl⟩
  | true =>
    rw [if_neg Bool.noConfusion]
    obtain ⟨result, hreserve, hok, hfailed⟩ :=
      reserve_answered env { w with ticks := w.ticks + 1 } count 256
    rw [hreserve]
    cases htokens : (reserveGranted env count 256 (w.ticks + 1)).1 with
    | false =>
      obtain ⟨status, hne, rfl⟩ := hfailed htokens
      exact ⟨status, _, hne, rfl⟩
    | true =>
      obtain ⟨cap, rfl⟩ := hok htokens
      rw [hfirst, htokens, Bool.and_true, Bool.true_and] at hrefused
      obtain ⟨result', hreserve', -, hfailed'⟩ := reserve_answered env
        { w with ticks := (reserveGranted env count 256 (w.ticks + 1)).2 }
        (World.pagesFor w.store.cfg count) 16
      obtain ⟨status, hne, rfl⟩ := hfailed' hrefused
      dsimp only
      rw [hreserve']
      exact ⟨status, _, hne, rfl⟩

theorem sequenceFork_granted {src count : Nat} {result : Except Status Nat}
    (hq : w.seq src = some q) (hcount : count ≤ q.tokens.length)
    (hgranted : forkGranted env w.store.cfg count w.ticks = true)
    (hfork : w.sequenceFork env src count = some (result, w')) : ∃ k, result = .ok k := by
  unfold World.sequenceFork World.ask at hfork
  rw [hq] at hfork
  simp only [Option.bind_eq_bind, Option.bind_some] at hfork
  unfold forkGranted at hgranted
  dsimp only at hgranted
  rw [Bool.and_eq_true, Bool.and_eq_true] at hgranted
  obtain ⟨⟨hfirst, htokens⟩, hpages⟩ := hgranted
  rw [if_neg (not_lt.2 hcount), hfirst, if_neg Bool.noConfusion] at hfork
  obtain ⟨result1, hreserve, hok, -⟩ :=
    reserve_answered env { w with ticks := w.ticks + 1 } count 256
  obtain ⟨cap, rfl⟩ := hok htokens
  rw [hreserve] at hfork
  obtain ⟨result2, hreserve', hok', -⟩ := reserve_answered env
    { w with ticks := (reserveGranted env count 256 (w.ticks + 1)).2 }
    (World.pagesFor w.store.cfg count) 16
  obtain ⟨pageCap, rfl⟩ := hok' hpages
  dsimp only at hfork
  rw [hreserve'] at hfork
  dsimp only at hfork
  split at hfork
  · cases hfork
  · obtain ⟨w1, -, hadd⟩ := Option.bind_eq_some_iff.1 hfork
    exact ⟨_, (Prod.mk.inj (Option.some.inj hadd)).1.symm⟩

end Requests

section Standing

/-- The snapshots of the trees are live and owned once, and the children of a node are apart. -/
structure Standing (w : World) : Prop where
  trees : TreesSound w
  proper : ∀ t ∈ w.radixes, t.Proper

theorem Standing.kept (hw : Standing w) (hkept : Kept w w') : Standing w' :=
  ⟨hw.trees.kept hkept, fun t ht => hw.proper t (hkept.radixes ▸ ht)⟩

theorem kept_of_seqs (hradixes : w'.radixes = w.radixes) (hseqs : w'.seqs = w.seqs) :
    Kept w w' := by
  refine ⟨hradixes, fun k hk => ?_⟩
  rwa [seq_of_seqs hseqs k]

theorem sequenceFork_kept {src count : Nat} {result : Except Status Nat}
    (hfork : w.sequenceFork env src count = some (result, w')) : Kept w w' := by
  obtain ⟨-, hradixes, ⟨hseqs, -⟩ | ⟨q, p, -, -, -, -, -, hseqs⟩⟩ := sequenceFork_seqs hfork
  · exact kept_of_seqs hradixes hseqs
  · exact (kept_addSeq p).trans (kept_of_seqs (w := (w.addSeq p).2) hradixes hseqs)

theorem proper_setRadix {r : Nat} {t : RadixNode} (hw : ∀ u ∈ w.radixes, u.Proper)
    (ht : t.Proper) : ∀ u ∈ (w.setRadix r t).radixes, u.Proper := by
  intro u hu
  rcases List.mem_or_eq_of_mem_set hu with hu | rfl
  · exact hw u hu
  · exact ht

/-- The store after the walk of an insertion. -/
def World.walk (env : Nat → Bool) (w : World) (r : Nat) (t : RadixNode) (path : List Nat) : World :=
  { w with ticks := (grow env path t w.ticks).ticks }.setRadix r (grow env path t w.ticks).tree

variable {r seq count fp : Nat} {tainted : Bool} {status : Status} {t : RadixNode}
  {path : List Nat}

/-- How an insertion ends: in the walk, or with the fork that the path is to get. -/
theorem radixInsert_ends (ht : w.radixes[r]? = some t) (hq : w.seq seq = some q)
    (hcount : count ≤ q.tokens.length)
    (hinsert : w.radixInsert env r seq count fp tainted = some (status, w')) :
    let path := q.tokens.take count
    let g := grow env path t w.ticks
    ∃ w1, World.closeAll g.freed (w.walk env r t path) = some w1 ∧
      (g.status ≠ .ok ∧ status = g.status ∧ w' = w1 ∨
        g.status = .ok ∧ ∃ w2 result w3, w1.closeReplaced g.tree path = some w2 ∧
          w2.sequenceFork env seq path.length = some (result, w3) ∧
          (result = .error status ∧ w' = w3 ∨ ∃ h, result = .ok h ∧ status = .ok ∧
            w' = w3.setRadix r (g.tree.update (fun _ => ⟨fp, tainted, some h⟩) path))) := by
  unfold World.radixInsert at hinsert
  rw [ht, hq] at hinsert
  simp only [Option.bind_eq_bind, Option.bind_some] at hinsert
  rw [if_neg (not_lt.2 hcount)] at hinsert
  obtain ⟨w1, hclose, hrest⟩ := Option.bind_eq_some_iff.1 hinsert
  refine ⟨w1, hclose, ?_⟩
  split at hrest
  · rename_i hok
    obtain ⟨w2, hreplace, hrest⟩ := Option.bind_eq_some_iff.1 hrest
    obtain ⟨⟨result, w3⟩, hfork, hend⟩ := Option.bind_eq_some_iff.1 hrest
    refine .inr ⟨hok, w2, result, w3, hreplace, hfork, ?_⟩
    cases result with
    | error failed =>
      obtain ⟨rfl, rfl⟩ := Prod.mk.inj (Option.some.inj hend)
      exact .inl ⟨rfl, rfl⟩
    | ok h =>
      obtain ⟨rfl, rfl⟩ := Prod.mk.inj (Option.some.inj hend)
      exact .inr ⟨h, rfl, rfl, rfl⟩
  · rename_i hfailed
    obtain ⟨rfl, rfl⟩ := Prod.mk.inj (Option.some.inj hrest)
    exact .inl ⟨hfailed, rfl, rfl⟩

/-- The snapshot at the path is the one that was there. -/
theorem grow_snapshot {ticks : Nat} (hok : (grow env path t ticks).status = .ok) :
    ((grow env path t ticks).tree.valueAt .empty path).snapshot =
      (t.valueAt .empty path).snapshot := by
  cases hget : t.get path with
  | none =>
    unfold valueAt
    rw [grow_made env hget hok, hget]
    rfl
  | some v => rw [grow_found env (by rw [hget]; rfl)]

variable (env) in
theorem grow_replaces (ticks : Nat) (hold : (t.valueAt .empty path).snapshot ≠ none) :
    grow env path t ticks = ⟨.ok, t, [], ticks⟩ := by
  apply grow_found
  rw [Option.isSome_iff_ne_none]
  intro hget
  unfold valueAt at hold
  rw [hget] at hold
  exact hold rfl

theorem radixes_walk (ht : w.radixes[r]? = some t) :
    (w.walk env r t path).radixes[r]? = some (grow env path t w.ticks).tree :=
  List.getElem?_set_self (List.getElem?_eq_some_iff.1 ht).1

/-- The fork for a path whose snapshot is replaced is granted. -/
def ReplaceGranted (env : Nat → Bool) (w : World) (t : RadixNode) (path : List Nat) : Prop :=
  (t.valueAt .empty path).snapshot ≠ none → forkGranted env w.store.cfg path.length w.ticks = true

theorem Closed.kept (hclosed : Closed w w' []) : Kept w w' := by
  refine ⟨hclosed.radixes, fun k hk => ?_⟩
  rw [hclosed.seq, if_neg List.not_mem_nil]
  exact hk

/-- A fork after a snapshot was closed does not fail where it is granted. -/
theorem fork_of_replaced {result : Except Status Nat} {w2 w3 : World} (hq : w.seq seq = some q)
    (hpath : path.length ≤ q.tokens.length) (hgranted : ReplaceGranted env w t path)
    (hold : (t.valueAt .empty path).snapshot ≠ none)
    (hclosed : Closed (w.walk env r t path) w2 (t.valueAt .empty path).snapshot.toList)
    (hfork : w2.sequenceFork env seq path.length = some (result, w3)) : ∃ k, result = .ok k := by
  have hticks : w2.ticks = w.ticks :=
    hclosed.ticks.trans (congrArg Grown.ticks (grow_replaces env w.ticks hold))
  have hcfg : w2.store.cfg = w.store.cfg := hclosed.cfg
  obtain ⟨q2, hq2, -⟩ := Option.bind_eq_some_iff.1 hfork
  have hsame : q2 = q := by
    have hq2' := hq2
    rw [hclosed.seq] at hq2'
    split at hq2'
    · cases hq2'
    · exact Option.some.inj (hq2'.symm.trans hq)
  refine sequenceFork_granted hq2 (hsame ▸ hpath) ?_ hfork
  rw [hticks, hcfg]
  exact hgranted hold

/-- An insertion whose fork replaces a snapshot only when granted leaves the trees standing. -/
theorem Standing.radixInsert (hw : Standing w) (ht : w.radixes[r]? = some t)
    (hq : w.seq seq = some q)
    (hgranted : count ≤ q.tokens.length → ReplaceGranted env w t (q.tokens.take count))
    (hinsert : w.radixInsert env r seq count fp tainted = some (status, w')) : Standing w' := by
  by_cases hcount : count ≤ q.tokens.length
  · have hgranted := hgranted hcount
    have hlength : (q.tokens.take count).length ≤ q.tokens.length := List.length_take_le' _ _
    have hwalked := hw.trees.walked env ht (q.tokens.take count)
    have hproper : ∀ u ∈ (w.walk env r t (q.tokens.take count)).radixes, u.Proper :=
      proper_setRadix hw.proper (grow_proper env _ (hw.proper t (List.mem_of_getElem? ht)) w.ticks)
    obtain ⟨w1, hclose, hend⟩ := radixInsert_ends ht hq hcount hinsert
    rcases hend with ⟨-, -, rfl⟩ | ⟨hok, w2, result, w3, hreplace, hfork, hend⟩
    · have hclosed := closeAll_closed hclose
      refine ⟨hwalked.closed hclosed.radixes fun k hk => ?_, fun u hu => ?_⟩
      · rw [hclosed.seq, if_neg hk]
        rfl
      · exact hproper u (hclosed.radixes ▸ hu)
    · rw [grow_ok env hok] at hclose
      obtain rfl := Option.some.inj hclose
      have hreplaced := closeReplaced_closed hreplace
      rw [grow_snapshot hok] at hreplaced
      have hkept := sequenceFork_kept hfork
      rcases hend with ⟨rfl, rfl⟩ | ⟨h, rfl, -, rfl⟩
      · have hnone : (t.valueAt .empty (q.tokens.take count)).snapshot = none := by
          by_contra hold
          obtain ⟨k, hk⟩ := fork_of_replaced hq hlength hgranted hold hreplaced hfork
          cases hk
        rw [hnone] at hreplaced
        exact Standing.kept ⟨hwalked.trees, hproper⟩ (hreplaced.kept.trans hkept)
      · obtain ⟨-, -, ⟨-, hfailed⟩ | ⟨p, p', -, -, -, -, hresult, hseqs⟩⟩ := sequenceFork_seqs hfork
        · exact absurd rfl (hfailed h)
        · have hh : h = w.seqs.length := (Except.ok.inj hresult).trans hreplaced.length
          have hradixes := hkept.radixes.trans hreplaced.radixes
          constructor
          · refine hwalked.trees.adopt (radixes_walk ht) hradixes ?_ ?_ fun k hk hlive => ?_
            · intro hmem
              obtain ⟨p, hp⟩ := Option.isSome_iff_exists.1 (hwalked.trees.live h hmem)
              have hlt := seq_lt hp
              exact (Nat.lt_irrefl _) (hh ▸ hlt)
            · unfold World.seq
              rw [hseqs, Except.ok.inj hresult, List.getElem?_concat_length]
              rfl
            · apply hkept.live
              rw [grow_snapshot hok] at hk
              rw [hreplaced.seq, if_neg fun hmem => hk (Option.mem_toList.1 hmem)]
              exact hlive
          · refine proper_setRadix (fun u hu => hproper u (hradixes ▸ hu)) ?_
            exact Proper.update _ _ (grow_proper env _ (hw.proper t (List.mem_of_getElem? ht)) _)
  · unfold World.radixInsert at hinsert
    rw [ht, hq] at hinsert
    simp only [Option.bind_eq_bind, Option.bind_some] at hinsert
    rw [if_pos (not_le.1 hcount)] at hinsert
    obtain ⟨-, rfl⟩ := Prod.mk.inj (Option.some.inj hinsert)
    exact hw

variable (env) in
/-- An insertion replaces a snapshot only where its fork is granted. -/
def Replacing (w : World) : Call → Prop
  | .radixInsert r seq count _ _ => ∀ t q, w.radixes[r]? = some t → w.seq seq = some q →
    count ≤ q.tokens.length → ReplaceGranted env w t (q.tokens.take count)
  | _ => True

theorem Standing.step (hw : Standing w) {call : Call} (hlegal : Legal w call)
    (hreplacing : Replacing env w call) (hstep : w.step env call = some w') : Standing w' := by
  cases call with
  | sequenceInit =>
    obtain rfl := Option.some.inj hstep
    unfold World.sequenceInit World.ask
    dsimp only
    split
    · exact hw.kept ((Kept.ticks w _).trans (kept_addSeq _))
    · exact hw.kept (Kept.ticks w _)
  | append h token =>
    obtain ⟨⟨status, w1⟩, happend, rfl⟩ := Option.map_eq_some_iff.1 hstep
    obtain ⟨q, hq, -⟩ := Option.bind_eq_some_iff.1 happend
    obtain ⟨new, -, hradixes, hother, ⟨q', hq', -⟩, -⟩ := sequenceAppend_appended hq happend
    refine hw.kept ⟨hradixes, fun k hk => ?_⟩
    by_cases hkh : k = h
    · rw [hkh, hq']
      rfl
    · rw [hother k hkh]
      exact hk
  | fork src count =>
    obtain ⟨⟨result, w1⟩, hfork, rfl⟩ := Option.map_eq_some_iff.1 hstep
    exact hw.kept (sequenceFork_kept hfork)
  | close h =>
    have hclosed := sequenceClose_closed hstep
    have howned : w'.owned = w.owned := by
      unfold World.owned
      rw [hclosed.radixes]
    refine ⟨⟨howned ▸ hw.trees.nodup, fun k hk => ?_⟩,
      fun t ht => hw.proper t (hclosed.radixes ▸ ht)⟩
    rw [howned] at hk
    have hne : k ∉ [h] := fun hmem => hlegal.2 (by rwa [← List.mem_singleton.1 hmem])
    rw [hclosed.seq, if_neg hne]
    exact hw.trees.live k hk
  | pageAcquire h layer token desired =>
    obtain ⟨⟨result, w1⟩, hacquire, rfl⟩ := Option.map_eq_some_iff.1 hstep
    obtain ⟨hseqs, -, hradixes⟩ := pageAcquire_seqs hacquire
    exact hw.kept (kept_of_seqs hradixes hseqs)
  | radixOpen =>
    obtain rfl := Option.some.inj hstep
    unfold World.radixOpen World.ask
    dsimp only
    split
    · exact hw.kept (Kept.ticks w _)
    · split
      · exact hw.kept (Kept.ticks w _)
      · have howned : World.owned
            { w with radixes := w.radixes ++ [.node [] .empty []], ticks := w.ticks + 1 + 1 } =
              w.owned := by
          unfold World.owned
          simp [snapshots_node, NodeData.empty]
        refine ⟨⟨howned ▸ hw.trees.nodup, fun k hk => hw.trees.live k (howned ▸ hk)⟩, ?_⟩
        intro t ht
        rcases List.mem_append.1 ht with ht | ht
        · exact hw.proper t ht
        · obtain rfl := List.mem_singleton.1 ht
          exact ⟨Apart.nil, trivial⟩
  | radixInsert r seq count fp tainted =>
    obtain ⟨⟨status, w1⟩, hinsert, rfl⟩ := Option.map_eq_some_iff.1 hstep
    obtain ⟨q, hq⟩ := Option.isSome_iff_exists.1 hlegal.2
    have ht := List.getElem?_eq_getElem hlegal.1
    exact hw.radixInsert ht hq (hreplacing _ q ht hq) hinsert
  | radixLookup r tokens =>
    obtain ⟨result, hlookup, rfl⟩ := Option.map_eq_some_iff.1 hstep
    obtain ⟨t, -, hlookup⟩ := Option.bind_eq_some_iff.1 hlookup
    dsimp only at hlookup
    split at hlookup
    · exact Option.some.inj hlookup ▸ hw.kept ⟨rfl, fun _ hk => hk⟩
    · exact Option.some.inj hlookup ▸ hw.kept ⟨rfl, fun _ hk => hk⟩
  | radixInvalidate r =>
    obtain ⟨t, ht, hstep⟩ := Option.bind_eq_some_iff.1 hstep
    obtain ⟨w1, hclose, hend⟩ := Option.bind_eq_some_iff.1 hstep
    obtain rfl := Option.some.inj hend
    have hclosed := closeAll_closed hclose
    refine ⟨hw.trees.invalidated ht hclosed.radixes fun k hk => ?_, ?_⟩
    · rw [hclosed.seq, if_neg hk]
    · refine proper_setRadix (fun u hu => hw.proper u (hclosed.radixes ▸ hu)) ?_
      exact Proper.map _ (hw.proper t (List.mem_of_getElem? ht))

theorem standing_opened {cfg : KvConfig} {store : KvStore} (hopen : kvOpen cfg = .ok store) :
    Standing (World.opened store) :=
  ⟨(opened_sound hopen).trees, fun _ ht => absurd ht List.not_mem_nil⟩

end Standing

end VgEngine.KvCache
