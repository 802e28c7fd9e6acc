import VgEngine.KvCache.Identity

/-! Page contents do not steer the store: every call does on a store whose bytes are all
zero what it does on the store itself. So the invariants of untouched pages are those of
written ones. -/
namespace VgEngine.KvCache

def zeros (contents : List UInt8) : List UInt8 := List.replicate contents.length 0

/-- The store with every byte of its pages and spill files set to zero. -/
@[reducible] def World.blank (w : World) : World :=
  { w with
    heap := { w.heap with cells := fun b => (w.heap.cells b).map zeros }
    files := fun k => (w.files k).map zeros }

variable (env : Nat → Bool) (w : World)

theorem zeros_replicate (n : Nat) : zeros (List.replicate n 0) = List.replicate n 0 := by
  rw [zeros, List.length_replicate]

@[simp] theorem blank_store : w.blank.store = w.store := rfl

@[simp] theorem blank_seq (h : Nat) : w.blank.seq h = w.seq h := rfl

@[simp] theorem blank_ticks : w.blank.ticks = w.ticks := rfl

@[simp] theorem blank_radixes : w.blank.radixes = w.radixes := rfl

theorem blank_ask : w.blank.ask env = ((w.ask env).1, (w.ask env).2.blank) := rfl

theorem blank_cells (b : Nat) : w.blank.heap.cells b = (w.heap.cells b).map zeros := rfl

theorem blank_free (block : Option Nat) : w.blank.free block = (w.free block).map World.blank := by
  cases block with
  | none => rfl
  | some b =>
    unfold World.free World.blank
    simp only [Option.isSome_map]
    split
    · simp only [Option.map_some]
      congr 2
      unfold Memory.free
      congr 1
      funext k
      dsimp only
      split
      · rfl
      · rfl
    · rfl

theorem blank_alloc (n : Nat) :
    World.blank { w with heap := w.heap.alloc (List.replicate n 0) } =
      { w.blank with heap := w.blank.heap.alloc (List.replicate n 0) } := by
  unfold World.blank Memory.alloc
  dsimp only
  congr 2
  funext b
  split
  · rw [Option.map_some, zeros_replicate]
  · rfl

theorem blank_spillPage (i : Nat) :
    w.blank.spillPage env i = (w.spillPage env i).map World.blank := by
  unfold World.spillPage
  dsimp only [World.ask]
  cases (w.store.cells i).data with
  | none => rfl
  | some b =>
    dsimp only
    split
    · rfl
    · split
      · rfl
      · split
        · rfl
        · cases w.heap.cells b with
          | none => rfl
          | some contents =>
            simp only [Option.map_some, Option.bind_eq_bind, Option.bind_some]
            rw [← blank_free]
            simp only [World.setCell, World.withStore, World.blank, apply_ite (Option.map zeros),
              Option.map_some]

theorem blank_faultPage (i : Nat) :
    w.blank.faultPage env i = ((w.faultPage env i).1, (w.faultPage env i).2.blank) := by
  unfold World.faultPage
  dsimp only [World.ask]
  split
  · rfl
  · cases w.files ((w.store.cells i).spillId, (w.store.cells i).age) with
    | none => rfl
    | some contents =>
      simp only [Option.map_some]
      split
      · rfl
      · split
        · rfl
        · rw [zeros, List.length_replicate]
          split
          · rfl
          · refine Prod.ext rfl ?_
            simp only [World.setCell, World.withStore, World.blank, Memory.alloc,
              apply_ite (Option.map zeros), Option.map_none, Option.map_some, zeros]

theorem blank_evictPage (v : Nat) :
    w.blank.evictPage env v = (w.evictPage env v).map World.blank := by
  unfold World.evictPage
  simp only [Option.bind_eq_bind]
  rw [show w.blank.withStore (World.uncount w.blank.store (w.blank.store.cells v)) =
    (w.withStore (World.uncount w.store (w.store.cells v))).blank from rfl]
  generalize w.withStore (World.uncount w.store (w.store.cells v)) = w1
  split
  · rw [blank_spillPage]
    cases w1.spillPage env v with
    | none => rfl
    | some w2 => rfl
  · rw [blank_free]
    cases w1.free (w.store.cells v).data with
    | none => rfl
    | some w2 => rfl

theorem blank_evictLoop (n : Nat) :
    w.blank.evictLoop env n = (w.evictLoop env n).map World.blank := by
  induction n generalizing w with
  | zero => rfl
  | succ n ih =>
    unfold World.evictLoop
    split
    · rw [blank_store]
      cases World.victim w.store with
      | none => rfl
      | some v =>
        dsimp only
        rw [blank_evictPage]
        cases w.evictPage env v with
        | none => rfl
        | some w1 => exact ih w1
    · rfl

theorem blank_evictPages : w.blank.evictPages env = (w.evictPages env).map World.blank := by
  unfold World.evictPages
  split
  · rfl
  · exact blank_evictLoop env w _

theorem blank_growPages :
    w.blank.growPages env = ((w.growPages env).1, (w.growPages env).2.blank) := by
  unfold World.growPages
  dsimp only [World.ask]
  split
  · split
    · rfl
    · rfl
  · rfl

theorem blank_newPage (tier : Tier) :
    w.blank.newPage env tier = (w.newPage env tier).map fun r => (r.1, r.2.blank) := by
  unfold World.newPage
  dsimp only
  rw [blank_evictPages]
  split
  · rfl
  · cases w.evictPages env with
    | none => rfl
    | some w1 =>
      simp only [Option.map_some, Option.bind_eq_bind, Option.bind_some, World.ask]
      split
      · rfl
      · have hblank := blank_alloc { w1 with ticks := w1.ticks + 1 } (pageBytes w.store.cfg)
        dsimp only at hblank
        rcases Bool.eq_false_or_eq_true (env w1.ticks) with halloc | halloc
        · obtain ⟨grown, w2, hgrown⟩ : ∃ grown w2, World.growPages env { w1 with
              heap := w1.heap.alloc (List.replicate (pageBytes w.store.cfg) 0)
              ticks := w1.ticks + 1 } = (grown, w2) := ⟨_, _, rfl⟩
          simp only [halloc, Bool.true_eq_false, if_false, ← hblank, blank_growPages, hgrown]
          cases grown with
          | false =>
            simp only [if_true]
            rw [blank_free]
            cases w2.free (some w1.heap.next) with
            | none => rfl
            | some w3 => rfl
          | true => rfl
        · simp only [halloc, if_true]
          rfl

theorem blank_pageRetain (p : PagePtr) :
    w.blank.pageRetain p = (w.pageRetain p).map World.blank := by
  unfold World.pageRetain
  rw [show w.blank.deref p = w.deref p from rfl]
  cases w.deref p with
  | none => rfl
  | some x => rfl

theorem blank_pageDrop (p : PagePtr) :
    w.blank.pageDrop p = (w.pageDrop p).map World.blank := by
  unfold World.pageDrop
  rw [show w.blank.deref p = w.deref p from rfl]
  cases w.deref p with
  | none => rfl
  | some x => rfl

theorem blank_retainAll (xs : List Slot) :
    World.retainAll xs w.blank = (World.retainAll xs w).map World.blank := by
  induction xs generalizing w with
  | nil => rfl
  | cons x xs ih =>
    rw [World.retainAll, World.retainAll, blank_pageRetain]
    cases w.pageRetain x.ptr with
    | none => rfl
    | some w1 => exact ih w1

theorem blank_dropAll (xs : List Slot) :
    World.dropAll xs w.blank = (World.dropAll xs w).map World.blank := by
  induction xs generalizing w with
  | nil => rfl
  | cons x xs ih =>
    rw [World.dropAll, World.dropAll, blank_pageDrop]
    cases w.pageDrop x.ptr with
    | none => rfl
    | some w1 => exact ih w1

theorem blank_reserve (n cap first : Nat) :
    w.blank.reserve env n cap first =
      ((w.reserve env n cap first).1, (w.reserve env n cap first).2.blank) := by
  unfold World.reserve
  split
  · rfl
  · cases World.growCapacity 65 n (if cap = 0 then first else cap * 2) with
    | none => rfl
    | some c => rfl

theorem blank_sequenceInit :
    w.blank.sequenceInit env = ((w.sequenceInit env).1, (w.sequenceInit env).2.blank) := by
  unfold World.sequenceInit
  dsimp only [World.ask]
  split
  · rfl
  · rfl

theorem blank_sequenceClose (h : Nat) :
    w.blank.sequenceClose h = (w.sequenceClose h).map World.blank := by
  unfold World.sequenceClose
  rw [blank_seq]
  cases w.seq h with
  | none => rfl
  | some q => exact blank_dropAll (w.setSeq h none) q.pages

theorem blank_prepareAppend (h : Nat) (q : KvSequence) :
    w.blank.prepareAppend env h q =
      ((w.prepareAppend env h q).1, (w.prepareAppend env h q).2.blank) := by
  unfold World.prepareAppend
  rw [blank_reserve]
  cases w.reserve env (q.tokens.length + 1) q.capacity 256 with
  | mk result w1 =>
    cases result with
    | error status => rfl
    | ok cap =>
      dsimp only
      rw [show w1.blank.setSeq h (some { q with capacity := cap }) =
        (w1.setSeq h (some { q with capacity := cap })).blank from rfl]
      generalize w1.setSeq h (some { q with capacity := cap }) = w2
      split
      · rfl
      · split
        · rfl
        · rw [blank_reserve, blank_store]
          cases w2.reserve env (q.tokens.length / w2.store.cfg.pageTokens + 1)
            q.pageCapacity 16 with
          | mk result w3 =>
            cases result with
            | error status => rfl
            | ok cap => rfl

theorem blank_sequenceAppend (h token : Nat) :
    w.blank.sequenceAppend env h token =
      (w.sequenceAppend env h token).map fun r => (r.1, r.2.blank) := by
  unfold World.sequenceAppend
  rw [blank_seq]
  cases w.seq h with
  | none => rfl
  | some q =>
    simp only [Option.bind_eq_bind, Option.bind_some]
    rw [blank_prepareAppend]
    cases w.prepareAppend env h q with
    | mk result w1 =>
      cases result with
      | error status => rfl
      | ok r =>
        obtain ⟨q1, needed⟩ := r
        cases needed with
        | false => rfl
        | true =>
          dsimp only
          rw [blank_newPage]
          cases w1.newPage env .host with
          | none => rfl
          | some r =>
            obtain ⟨slot, w2⟩ := r
            cases slot with
            | none => rfl
            | some slot => rfl

theorem blank_sequenceFork (src count : Nat) :
    w.blank.sequenceFork env src count =
      (w.sequenceFork env src count).map fun r => (r.1, r.2.blank) := by
  unfold World.sequenceFork
  rw [blank_seq]
  cases w.seq src with
  | none => rfl
  | some q =>
    simp only [Option.bind_eq_bind, Option.bind_some]
    split
    · rfl
    · rw [blank_ask]
      obtain ⟨ok, w0⟩ := w.ask env
      dsimp only
      split
      · rfl
      · rw [blank_reserve]
        obtain ⟨result, w1⟩ := w0.reserve env count 0 256
        cases result with
        | error status => rfl
        | ok cap =>
          dsimp only
          rw [blank_reserve]
          obtain ⟨result, w2⟩ := w1.reserve env (World.pagesFor w1.store.cfg count) 0 16
          cases result with
          | error status => rfl
          | ok pageCap =>
            dsimp only
            split
            · rfl
            · rw [blank_retainAll]
              cases World.retainAll (q.pages.take (World.pagesFor w1.store.cfg count)) w2 with
              | none => rfl
              | some w3 => rfl

theorem blank_pageAcquire (h layer token : Nat) (desired : Tier) :
    w.blank.pageAcquire env h layer token desired =
      (w.pageAcquire env h layer token desired).map fun r => (r.1, r.2.blank) := by
  unfold World.pageAcquire
  rw [blank_seq]
  cases w.seq h with
  | none => rfl
  | some q =>
    simp only [Option.bind_eq_bind, Option.bind_some]
    split
    · rfl
    · rw [blank_store]
      cases q.pages[token / w.store.cfg.pageTokens]? with
      | none => rfl
      | some slot =>
        simp only [Option.bind_some]
        rw [show w.blank.deref slot.ptr = w.deref slot.ptr from rfl]
        cases w.deref slot.ptr with
        | none => rfl
        | some x =>
          simp only [Option.bind_some]
          rw [blank_faultPage]
          cases w.faultPage env slot.ptr.index with
          | mk ok w1 =>
            dsimp only
            split
            · rfl
            · rfl

theorem blank_closeAll (hs : List Nat) :
    World.closeAll hs w.blank = (World.closeAll hs w).map World.blank := by
  induction hs generalizing w with
  | nil => rfl
  | cons h hs ih =>
    rw [World.closeAll, World.closeAll, blank_sequenceClose]
    cases w.sequenceClose h with
    | none => rfl
    | some w1 => exact ih w1

theorem blank_closeReplaced (t : RadixNode) (path : List Nat) :
    w.blank.closeReplaced t path = (w.closeReplaced t path).map World.blank := by
  unfold World.closeReplaced
  cases (t.valueAt .empty path).snapshot with
  | none => rfl
  | some old => exact blank_sequenceClose w old

theorem blank_setSnapshot (r : Nat) (t : RadixNode) (seq : Nat) (path : List Nat) (fp : Nat)
    (tainted : Bool) :
    w.blank.setSnapshot env r t seq path fp tainted =
      (w.setSnapshot env r t seq path fp tainted).map fun r => (r.1, r.2.blank) := by
  unfold World.setSnapshot
  rw [blank_closeReplaced]
  cases w.closeReplaced t path with
  | none => rfl
  | some w1 =>
    simp only [Option.map_some, Option.bind_eq_bind, Option.bind_some]
    rw [blank_sequenceFork]
    cases w1.sequenceFork env seq path.length with
    | none => rfl
    | some r =>
      obtain ⟨result, w2⟩ := r
      cases result with
      | error status => rfl
      | ok h => rfl

theorem blank_radixInsert (r seq count fp : Nat) (tainted : Bool) :
    w.blank.radixInsert env r seq count fp tainted =
      (w.radixInsert env r seq count fp tainted).map fun r => (r.1, r.2.blank) := by
  unfold World.radixInsert
  rw [blank_radixes, blank_seq, blank_ticks]
  cases w.radixes[r]? with
  | none => rfl
  | some t =>
    cases w.seq seq with
    | none => rfl
    | some q =>
      simp only [Option.bind_eq_bind, Option.bind_some]
      split
      · rfl
      · generalize grow env (q.tokens.take count) t w.ticks = g
        have hclose := blank_closeAll ({ w with ticks := g.ticks }.setRadix r g.tree) g.freed
        dsimp only [World.setRadix] at hclose ⊢
        rw [hclose]
        cases World.closeAll g.freed _ with
        | none => rfl
        | some w1 =>
          simp only [Option.map_some, Option.bind_some]
          split
          · exact blank_setSnapshot env w1 r g.tree seq (q.tokens.take count) fp tainted
          · rfl

theorem blank_radixOpen :
    w.blank.radixOpen env = ((w.radixOpen env).1, (w.radixOpen env).2.blank) := by
  unfold World.radixOpen
  dsimp only [World.ask]
  split
  · rfl
  · split
    · rfl
    · rfl

theorem blank_radixLookup (r : Nat) (tokens : List Nat) :
    w.blank.radixLookup r tokens = (w.radixLookup r tokens).map fun r => (r.1, r.2.blank) := by
  unfold World.radixLookup
  rw [blank_radixes]
  cases w.radixes[r]? with
  | none => rfl
  | some t =>
    simp only [Option.bind_eq_bind, Option.bind_some]
    cases t.longest (fun v => v.snapshot.isSome && !v.tainted) tokens 0 none with
    | none => rfl
    | some found => rfl

theorem blank_radixInvalidate (r : Nat) :
    w.blank.radixInvalidate r = (w.radixInvalidate r).map World.blank := by
  unfold World.radixInvalidate
  rw [blank_radixes]
  cases w.radixes[r]? with
  | none => rfl
  | some t =>
    simp only [Option.bind_eq_bind, Option.bind_some]
    rw [blank_closeAll]
    cases World.closeAll (snapshots t) w with
    | none => rfl
    | some w1 => rfl

/-- A call does on the blank store what it does on the store. -/
theorem blank_step (call : Call) : w.blank.step env call = (w.step env call).map World.blank := by
  cases call with
  | sequenceInit => exact congrArg (fun r => some r.2) (blank_sequenceInit env w)
  | append h token =>
    rw [World.step, World.step, blank_sequenceAppend, Option.map_map, Option.map_map]
    rfl
  | fork src count =>
    rw [World.step, World.step, blank_sequenceFork, Option.map_map, Option.map_map]
    rfl
  | close h => exact blank_sequenceClose w h
  | pageAcquire h layer token desired =>
    rw [World.step, World.step, blank_pageAcquire, Option.map_map, Option.map_map]
    rfl
  | radixOpen => exact congrArg (fun r => some r.2) (blank_radixOpen env w)
  | radixInsert r seq count fp tainted =>
    rw [World.step, World.step, blank_radixInsert, Option.map_map, Option.map_map]
    rfl
  | radixLookup r tokens =>
    rw [World.step, World.step, blank_radixLookup, Option.map_map, Option.map_map]
    rfl
  | radixInvalidate r => exact blank_radixInvalidate w r

variable {env w}

/-- A write that keeps the length of a block is not seen in the blank store. -/
theorem blank_write {b : Nat} {contents new : List UInt8} (hcells : w.heap.cells b = some contents)
    (hlength : new.length = contents.length) :
    World.blank { w with heap := w.heap.write b new } = w.blank := by
  unfold World.blank Memory.write
  dsimp only
  congr 2
  funext k
  split
  · rename_i heq
    rw [heq, hcells, Option.map_some, Option.map_some, zeros, hlength, zeros]
  · rfl

section Guards

variable {h : Nat}

theorem pageSafe_blank (h : PageSafe env w) : PageSafe env w.blank := ⟨h.evicts, h.grows⟩

theorem appendSafe_blank (hsafe : AppendSafe env w h) : AppendSafe env w.blank h := by
  intro q q' w' hq hprepare
  rw [blank_prepareAppend] at hprepare
  obtain ⟨hresult, rfl⟩ := Prod.mk.inj hprepare
  exact pageSafe_blank (hsafe q q' _ hq (Prod.ext hresult rfl))

theorem snapshotSafe_blank {t : RadixNode} {seq : Nat} {path : List Nat}
    (hsafe : SnapshotSafe env w t seq path) : SnapshotSafe env w.blank t seq path where
  other := hsafe.other
  shares := by
    intro w' hclose
    rw [blank_closeReplaced, Option.map_eq_some_iff] at hclose
    obtain ⟨w1, hclose, rfl⟩ := hclose
    exact hsafe.shares w1 hclose
  replaces := by
    intro w' hclose hold
    rw [blank_closeReplaced, Option.map_eq_some_iff] at hclose
    obtain ⟨w1, hclose, rfl⟩ := hclose
    obtain ⟨k, w2, hfork⟩ := hsafe.replaces w1 hclose hold
    refine ⟨k, w2.blank, ?_⟩
    rw [blank_sequenceFork, hfork]
    rfl

theorem insertSafe_blank {r seq count : Nat} (hsafe : InsertSafe env w r seq count) :
    InsertSafe env w.blank r seq count := by
  intro t q ht hq hcount hgrow
  exact snapshotSafe_blank (hsafe t q ht hq hcount hgrow)

/-- The conditions on a call do not look at the bytes of the pages. -/
theorem safe_blank {call : Call} (hsafe : Safe env w call) : Safe env w.blank call := by
  obtain ⟨hlegal, hsafe⟩ := hsafe
  cases call with
  | append h token => exact ⟨hlegal, appendSafe_blank hsafe⟩
  | fork src count => exact ⟨hlegal, hsafe⟩
  | radixInsert r seq count fp tainted => exact ⟨hlegal, insertSafe_blank hsafe⟩
  | sequenceInit => exact ⟨hlegal, trivial⟩
  | close h => exact ⟨hlegal, trivial⟩
  | pageAcquire h layer token desired => exact ⟨hlegal, trivial⟩
  | radixOpen => exact ⟨hlegal, trivial⟩
  | radixLookup r tokens => exact ⟨hlegal, trivial⟩
  | radixInvalidate r => exact ⟨hlegal, trivial⟩

end Guards

end VgEngine.KvCache
