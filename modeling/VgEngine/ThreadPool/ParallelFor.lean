import VgEngine.ThreadPool.Accounting
import VgEngine.Lib.Tiles

/-! `vg_threadpool_parallel_for`: the chunks that it makes, and the call among the steps of the
workers. -/
namespace VgEngine.ThreadPool
open Lib

section Chunks

/-- How the allocations for the chunk `c` turn out: that of the job, and that of the task which
`vg_threadpool_submit` makes for it. -/
structure ChunkIo where
  mallocOk : Bool
  callocOk : Bool
deriving DecidableEq, Repr

variable (nItems : Nat) (io : Nat → ChunkIo)

def chunkCount (workers : Nat) : Nat := if workers < nItems then workers else nItems

/-- The length of a chunk. -/
def perChunk (chunks : Nat) : Nat := (nItems + chunks - 1) % 2 ^ 32 / chunks

def chunkBegin (per c : Nat) : Nat := c * per % 2 ^ 32

def chunkEnd (per c : Nat) : Nat :=
  let stop := (chunkBegin per c + per) % 2 ^ 32
  if nItems < stop then nItems else stop

/-- The loop over the chunks: the jobs that are queued, from the chunk `c` on. -/
def jobsFrom (per : Nat) : Nat → Nat → List (Nat × Nat)
  | 0, _ => []
  | more + 1, c =>
    if nItems ≤ chunkBegin per c then []
    else if (io c).mallocOk = true ∧ (io c).callocOk = true then
      (chunkBegin per c, chunkEnd nItems per c) :: jobsFrom per more (c + 1)
    else jobsFrom per more (c + 1)

/-- The range that the caller does itself. -/
def ownRange (per : Nat) : Nat × Nat := (0, if nItems < per then nItems else per)

def jobs (workers : Nat) : List (Nat × Nat) :=
  let chunks := chunkCount nItems workers
  jobsFrom nItems io (perChunk nItems chunks) (chunks - 1) 1

/-- The length of a chunk in 32 bits is right, and no allocation fails for a chunk that is not
empty. -/
def AllQueued (workers : Nat) : Prop :=
  let chunks := chunkCount nItems workers
  nItems + chunks - 1 < 2 ^ 32 ∧
    ∀ c, 1 ≤ c → c < chunks → c * ((nItems + chunks - 1) / chunks) < nItems →
      (io c).mallocOk = true ∧ (io c).callocOk = true

variable {nItems io}

theorem mem_jobsFrom {per more c : Nat} {r : Nat × Nat} (h : r ∈ jobsFrom nItems io per more c) :
    ∃ c', c ≤ c' ∧ c' < c + more ∧ (io c').mallocOk = true ∧ (io c').callocOk = true ∧
      r = (chunkBegin per c', chunkEnd nItems per c') := by
  induction more generalizing c with
  | zero => cases h
  | succ more ih =>
    have hlater (h : r ∈ jobsFrom nItems io per more (c + 1)) : ∃ c', c ≤ c' ∧ c' < c + (more + 1) ∧
        (io c').mallocOk = true ∧ (io c').callocOk = true ∧
          r = (chunkBegin per c', chunkEnd nItems per c') := by
      obtain ⟨c', hle, hlt, hrest⟩ := ih h
      exact ⟨c', by omega, by omega, hrest⟩
    unfold jobsFrom at h
    split_ifs at h with hstop hio
    · cases h
    · rcases List.mem_cons.1 h with rfl | h
      · exact ⟨c, Nat.le_refl _, by omega, hio.1, hio.2, rfl⟩
      · exact hlater h
    · exact hlater h

/-- The chunks from `c` on tile the rest, if they are all queued. -/
theorem tiles_jobsFrom {per more c chunks : Nat} (hchunks : c + more = chunks)
    (hcover : nItems ≤ chunks * per) (hfit : chunks * per < 2 ^ 32)
    (hio : ∀ c', c ≤ c' → c' < chunks → c' * per < nItems →
      (io c').mallocOk = true ∧ (io c').callocOk = true) :
    Tiles (min (c * per) nItems) nItems (jobsFrom nItems io per more c) := by
  induction more generalizing c with
  | zero =>
    obtain rfl : c = chunks := hchunks
    exact Nat.min_eq_right hcover
  | succ more ih =>
    have hle : (c + 1) * per ≤ chunks * per := Nat.mul_le_mul_right per (by omega)
    rw [Nat.add_mul, Nat.one_mul] at hle
    have hbegin : chunkBegin per c = c * per := Nat.mod_eq_of_lt (by omega)
    have hend : chunkEnd nItems per c = min ((c + 1) * per) nItems := by
      unfold chunkEnd
      dsimp only
      rw [hbegin, Nat.mod_eq_of_lt (by omega), Nat.add_mul, Nat.one_mul]
      split_ifs <;> omega
    have hrest := ih (c := c + 1) (by omega) fun c' hc' => hio c' (by omega)
    unfold jobsFrom
    rw [hbegin, hend]
    split_ifs with hstop hboth
    · exact Nat.min_eq_right hstop
    · refine ⟨?_, ?_, hrest⟩
      · dsimp only
        omega
      · dsimp only
        rw [Nat.add_mul, Nat.one_mul]
        omega
    · exact absurd (hio c (Nat.le_refl c) (by omega) (by omega)) hboth

theorem chunkCount_le (workers : Nat) : chunkCount nItems workers ≤ nItems := by
  unfold chunkCount
  split_ifs <;> omega

theorem chunkCount_le_workers (workers : Nat) : chunkCount nItems workers ≤ workers := by
  unfold chunkCount
  split_ifs <;> omega

/-- If all chunks are queued, the jobs and the range of the caller are a partition. -/
theorem AllQueued.partitions {workers : Nat} (hitems : 0 < nItems) (hworkers : 1 < workers)
    (h : AllQueued nItems io workers) :
    Partitions nItems (ownRange nItems (perChunk nItems (chunkCount nItems workers)) ::
      jobs nItems io workers) := by
  obtain ⟨hfit, hio⟩ := h
  have hpositive : 0 < chunkCount nItems workers := by
    unfold chunkCount
    split_ifs <;> omega
  unfold jobs
  dsimp only
  generalize hc : chunkCount nItems workers = chunks at *
  have hper : perChunk nItems chunks = (nItems + chunks - 1) / chunks := by
    unfold perChunk
    rw [Nat.mod_eq_of_lt hfit]
  rw [hper]
  generalize hp : (nItems + chunks - 1) / chunks = per at *
  have hdiv := Nat.div_add_mod (nItems + chunks - 1) chunks
  have hmod := Nat.mod_lt (nItems + chunks - 1) hpositive
  rw [hp] at hdiv
  have htiles : Tiles (min (1 * per) nItems) nItems (jobsFrom nItems io per (chunks - 1) 1) :=
    tiles_jobsFrom (by omega) (by omega) (by omega) hio
  refine Tiles.partitions ⟨rfl, Nat.zero_le _, ?_⟩
  have hown : (ownRange nItems per).2 = min (1 * per) nItems := by
    unfold ownRange
    rw [Nat.one_mul]
    dsimp only
    split_ifs <;> omega
  rw [hown]
  exact htiles

/-- A partition needs all chunks. -/
theorem allQueued_of_partitions {workers : Nat} (hitems : 0 < nItems) (hworkers : 1 < workers)
    (hbound : nItems < 2 ^ 32)
    (h : Partitions nItems (ownRange nItems (perChunk nItems (chunkCount nItems workers)) ::
      jobs nItems io workers)) : AllQueued nItems io workers := by
  have hpositive : 0 < chunkCount nItems workers := by
    unfold chunkCount
    split_ifs <;> omega
  have hle : chunkCount nItems workers ≤ nItems := chunkCount_le workers
  unfold jobs at h
  unfold AllQueued
  dsimp only at h ⊢
  generalize hc : chunkCount nItems workers = chunks at *
  have hmem (r : Nat × Nat) (hr : r ∈ ownRange nItems (perChunk nItems chunks) ::
      jobsFrom nItems io (perChunk nItems chunks) (chunks - 1) 1) :
      r = ownRange nItems (perChunk nItems chunks) ∨ ∃ c, 1 ≤ c ∧ c < chunks ∧
        (io c).mallocOk = true ∧ (io c).callocOk = true ∧
          r = (chunkBegin (perChunk nItems chunks) c, chunkEnd nItems (perChunk nItems chunks) c) := by
    rcases List.mem_cons.1 hr with hr | hr
    · exact Or.inl hr
    · obtain ⟨c, hc1, hc2, hrest⟩ := mem_jobsFrom hr
      exact Or.inr ⟨c, hc1, by omega, hrest⟩
  have hfit : nItems + chunks - 1 < 2 ^ 32 := by
    by_contra hwraps
    -- the sum wraps to less than the number of chunks, so all ranges are empty
    have hper : perChunk nItems chunks = 0 := by
      unfold perChunk
      exact Nat.div_eq_of_lt (by omega)
    obtain ⟨r, hr, hin⟩ := h.covered hitems
    rw [hper] at hmem
    rw [hper] at hr
    rcases hmem r hr with rfl | ⟨c, -, -, -, -, rfl⟩
    · unfold ownRange at hin
      simp at hin
    · unfold chunkEnd chunkBegin at hin
      simp at hin
  refine ⟨hfit, fun c hc1 hc2 hbegin => ?_⟩
  have hper : perChunk nItems chunks = (nItems + chunks - 1) / chunks := by
    unfold perChunk
    rw [Nat.mod_eq_of_lt hfit]
  rw [hper] at h hmem
  generalize hp : (nItems + chunks - 1) / chunks = per at *
  have hdiv := Nat.div_add_mod (nItems + chunks - 1) chunks
  rw [hp] at hdiv
  -- the index at the start of the chunk is in no other range
  obtain ⟨r, hr, hlo, hhi⟩ := h.covered hbegin
  have hc0 : 1 * per ≤ c * per := Nat.mul_le_mul_right per hc1
  rcases hmem r hr with rfl | ⟨c', hc1', hc2', hmalloc, hcalloc, rfl⟩
  · unfold ownRange at hhi
    dsimp only at hhi
    split_ifs at hhi <;> omega
  · have hle' : (c' + 1) * per ≤ chunks * per := Nat.mul_le_mul_right per (by omega)
    rw [Nat.add_mul, Nat.one_mul] at hle'
    have hbegin' : chunkBegin per c' = c' * per := Nat.mod_eq_of_lt (by omega)
    unfold chunkEnd at hhi
    rw [hbegin'] at hlo hhi
    dsimp only at hlo hhi
    rw [Nat.mod_eq_of_lt (by omega : c' * per + per < 2 ^ 32)] at hhi
    have hsame : c = c' := by
      rcases Nat.lt_trichotomy c c' with hlt | heq | hgt
      · have hmul : (c + 1) * per ≤ c' * per := Nat.mul_le_mul_right per hlt
        rw [Nat.add_mul, Nat.one_mul] at hmul
        split_ifs at hhi <;> omega
      · exact heq
      · have hmul : (c' + 1) * per ≤ c * per := Nat.mul_le_mul_right per hgt
        rw [Nat.add_mul, Nat.one_mul] at hmul
        split_ifs at hhi <;> omega
    rw [hsame]
    exact ⟨hmalloc, hcalloc⟩

end Chunks

section Calls

/-- Where the caller stands: it has jobs to submit, it is past its own range, it waits, or it has
returned. -/
inductive Caller where
  | submitting (rest : List (Nat × Nat))
  | called
  | waiting (j : Nat)
  | returned
deriving DecidableEq, Repr

/-- A call of `vg_threadpool_parallel_for`: the pool, the ranges of those of its tasks that are jobs
of this call, and the ranges for which the caller has invoked the callback itself. -/
structure Call where
  pool : Pool
  job : Nat → Option (Nat × Nat)
  own : List (Nat × Nat)
  caller : Caller

/-- The start of the call. Without a pool it goes on as with one worker. -/
def Call.start (pool : Pool) (nItems : Nat) (io : Nat → ChunkIo) : Call :=
  let workers := pool.workers.length
  if nItems = 0 then ⟨pool, fun _ => none, [], .returned⟩
  else if workers ≤ 1 then ⟨pool, fun _ => none, [(0, nItems)], .returned⟩
  else ⟨pool, fun _ => none, [], .submitting (jobs nItems io workers)⟩

inductive CallAction where
  /-- A step of the pool that is not a submission. -/
  | pool (a : Action)
  /-- The next submission, or the callback for the caller's own range. -/
  | next (woken : Nat)
  | wait
  | finish
deriving DecidableEq, Repr

def Action.isSubmit : Action → Bool
  | .submit _ _ => true
  | _ => false

namespace Call

/-- The ranges for which the callback has been invoked. -/
def invoked (c : Call) : List (Nat × Nat) := c.own ++ c.pool.finished.filterMap c.job

def step (nItems : Nat) (c : Call) (a : CallAction) : Option Call :=
  match a with
  | .pool a =>
    if a.isSubmit then none else (c.pool.step a).map fun pool => { c with pool := pool }
  | .next woken =>
    match c.caller with
    | .submitting (r :: rest) =>
      (c.pool.submit woken).map fun pool => { c with
        pool := pool
        job := Function.update c.job c.pool.submitted (some r)
        caller := .submitting rest }
    | .submitting [] =>
      let per := perChunk nItems (chunkCount nItems c.pool.workers.length)
      some { c with own := [ownRange nItems per], caller := .called }
    | _ => none
  | .wait =>
    match c.caller with
    | .called => (c.pool.step .wait).map fun pool =>
      { c with pool := pool, caller := .waiting c.pool.waiters.length }
    | _ => none
  | .finish =>
    match c.caller with
    | .waiting j =>
      if (c.pool.waiters[j]?).map Waiter.stage = some .returned then
        some { c with caller := .returned }
      else none
    | _ => none

end Call

/-- What a step that submits nothing leaves as it is. -/
structure Quiet (s s' : Pool) : Prop where
  submitted : s'.submitted = s.submitted
  workers : s'.workers.length = s.workers.length
  pending : s'.nPending ≤ s.nPending
  waiters : ∀ (j : Nat) (w : Waiter), s.waiters[j]? = some w →
    ∃ w' : Waiter, s'.waiters[j]? = some w' ∧ w'.before = w.before
  finished : ∀ t ∈ s.finished, t ∈ s'.finished

section Steps

variable {s s' : Pool}

theorem Quiet.of_waiters_eq (hsubmitted : s'.submitted = s.submitted)
    (hworkers : s'.workers.length = s.workers.length) (hpending : s'.nPending ≤ s.nPending)
    (hwaiters : s'.waiters = s.waiters) (hfinished : ∀ t ∈ s.finished, t ∈ s'.finished) :
    Quiet s s' :=
  ⟨hsubmitted, hworkers, hpending, fun _ w hw => ⟨w, hwaiters ▸ hw, rfl⟩, hfinished⟩

theorem quiet_setWaiter {j before : Nat} {stage stage' : Stage}
    (hw : s.waiters[j]? = some ⟨stage, before⟩) : Quiet s (s.setWaiter j ⟨stage', before⟩) := by
  refine ⟨rfl, rfl, Nat.le_refl _, fun j' w hw' => ?_, fun t ht => ht⟩
  unfold Pool.setWaiter
  dsimp only
  rw [List.getElem?_set]
  split_ifs with heq hlt
  · subst heq
    refine ⟨_, rfl, ?_⟩
    rw [hw] at hw'
    rw [← Option.some.inj hw']
  · subst heq
    exact absurd (List.getElem?_eq_some_iff.1 hw).1 hlt
  · exact ⟨w, hw', rfl⟩

theorem quiet_step {a : Action} (ha : a.isSubmit = false) (hs : s.step a = some s') :
    Quiet s s' := by
  unfold Pool.step at hs
  cases a with
  | submit callocOk woken => cases ha
  | look i =>
    dsimp only at hs
    split_ifs at hs
    obtain rfl := Option.some.inj hs
    unfold Pool.look
    split
    all_goals exact .of_waiters_eq rfl List.length_set (Nat.le_refl _) rfl fun t ht => ht
  | wake i =>
    dsimp only at hs
    split_ifs at hs
    obtain rfl := Option.some.inj hs
    exact .of_waiters_eq rfl List.length_set (Nat.le_refl _) rfl fun t ht => ht
  | body i =>
    dsimp only at hs
    split at hs
    · obtain rfl := Option.some.inj hs
      exact .of_waiters_eq rfl List.length_set (Nat.le_refl _) rfl fun t ht =>
        List.mem_append_left _ ht
    · cases hs
  | account i =>
    dsimp only at hs
    split at hs
    · obtain rfl := Option.some.inj hs
      obtain ⟨nPending, waiters, haccount, hpending, hwaiters⟩ := account_eq s i
      rw [haccount]
      refine ⟨rfl, List.length_set, ?_, fun j w hw => ?_, fun t ht => ht⟩
      · dsimp only
        omega
      · dsimp only
        rcases hwaiters with rfl | rfl
        · exact ⟨w, hw, rfl⟩
        · unfold broadcast
          rw [List.getElem?_map, hw]
          refine ⟨_, rfl, ?_⟩
          dsimp only
          split_ifs <;> rfl
    · cases hs
  | wait =>
    obtain rfl := Option.some.inj hs
    refine ⟨rfl, rfl, Nat.le_refl _, fun j w hw => ⟨w, ?_, rfl⟩, fun t ht => ht⟩
    dsimp only
    rw [List.getElem?_append_left (List.getElem?_eq_some_iff.1 hw).1]
    exact hw
  | waitLook j =>
    dsimp only at hs
    split at hs
    · rename_i before hw
      obtain rfl := Option.some.inj hs
      exact quiet_setWaiter hw
    · cases hs
  | waitWake j =>
    dsimp only at hs
    split at hs
    · rename_i before hw
      obtain rfl := Option.some.inj hs
      exact quiet_setWaiter hw
    · cases hs

theorem room_of_quiet {a : Action} (ha : a.isSubmit = false) : Room s a := by
  cases a with
  | submit callocOk woken => cases ha
  | _ => trivial

theorem Action.IsWork.quiet {a : Action} (ha : a.IsWork) : a.isSubmit = false := by
  cases a <;> first | rfl | cases ha

end Steps

/-- The jobs that the caller has not submitted yet. -/
def Caller.rest : Caller → List (Nat × Nat)
  | .submitting rest => rest
  | _ => []

def Caller.isSubmitting : Caller → Bool
  | .submitting _ => true
  | _ => false

/-- The call among the steps of the pool: its jobs are tasks, or still to be submitted, and it
returns when all tasks are finished. -/
structure Submits (nItems workers : Nat) (all : List (Nat × Nat)) (c : Call) : Prop where
  sound : ∃ queued, Queued c.pool queued ∧ Counted c.pool queued
  staff : c.pool.workers.length = workers
  tasks : (List.range c.pool.submitted).filterMap c.job ++ c.caller.rest = all
  room : c.pool.nPending + c.caller.rest.length < 2 ^ 32
  own : c.own = if c.caller.isSubmitting then []
    else [ownRange nItems (perChunk nItems (chunkCount nItems workers))]
  waits : ∀ j : Nat, c.caller = .waiting j →
    ∃ w : Waiter, c.pool.waiters[j]? = some w ∧ w.before = c.pool.submitted
  returned : c.caller = .returned → ∀ t < c.pool.submitted, t ∈ c.pool.finished

section Invariant

variable {nItems workers : Nat} {all : List (Nat × Nat)} {c c' : Call}

theorem filterMap_update {n : Nat} (job : Nat → Option (Nat × Nat)) (r : Nat × Nat) :
    (List.range (n + 1)).filterMap (Function.update job n (some r)) =
      (List.range n).filterMap job ++ [r] := by
  have hold : (List.range n).filterMap (Function.update job n (some r)) =
      (List.range n).filterMap job := by
    refine List.filterMap_congr fun t ht => ?_
    rw [Function.update_of_ne (Nat.ne_of_lt (List.mem_range.1 ht))]
  rw [List.range_succ, List.filterMap_append, hold]
  simp

theorem Submits.poolStep (h : Submits nItems workers all c) {a : Action} {pool : Pool}
    (ha : a.isSubmit = false) (hs : c.pool.step a = some pool) :
    Submits nItems workers all { c with pool := pool } := by
  have hquiet := quiet_step ha hs
  obtain ⟨queued, hqueued, hcounted⟩ := h.sound
  have hpending := hquiet.pending
  have hroom := h.room
  refine ⟨hcounted.step hqueued (room_of_quiet ha) hs, hquiet.workers.trans h.staff, ?_, ?_,
    h.own, ?_, ?_⟩
  · rw [hquiet.submitted]
    exact h.tasks
  · dsimp only
    omega
  · intro j hj
    obtain ⟨w, hw, hbefore⟩ := h.waits j hj
    obtain ⟨w', hw', hbefore'⟩ := hquiet.waiters j w hw
    exact ⟨w', hw', by rw [hbefore', hbefore]; exact hquiet.submitted.symm⟩
  · intro hreturned t ht
    rw [hquiet.submitted] at ht
    exact hquiet.finished t (h.returned hreturned t ht)

theorem submit_workers {s s' : Pool} {woken : Nat} (hs : s.submit woken = some s') :
    s'.workers.length = s.workers.length := by
  obtain ⟨ws, hws, rfl⟩ := Option.map_eq_some_iff.1 hs
  exact (signal_spec hws).2.2.1

/-- One step of the caller or of the pool. -/
theorem Submits.step (h : Submits nItems workers all c) {a : CallAction}
    (hs : c.step nItems a = some c') : Submits nItems workers all c' := by
  obtain ⟨queued, hqueued, hcounted⟩ := h.sound
  unfold Call.step at hs
  cases a with
  | pool a =>
    dsimp only at hs
    split_ifs at hs with ha
    obtain ⟨pool, hpool, rfl⟩ := Option.map_eq_some_iff.1 hs
    exact h.poolStep (eq_false_of_ne_true ha) hpool
  | next woken =>
    dsimp only at hs
    split at hs
    · rename_i r rest hcaller
      obtain ⟨pool, hpool, rfl⟩ := Option.map_eq_some_iff.1 hs
      have hroom := h.room
      have hjobs := h.tasks
      have hown := h.own
      rw [hcaller] at hroom hjobs hown
      simp only [Caller.rest, List.length_cons] at hroom hjobs
      obtain ⟨hqueued', hsubmitted, -, -, -, hpending⟩ := hqueued.submit hpool
      refine ⟨⟨_, hqueued', hcounted.submit hqueued (by omega) hpool⟩,
        (submit_workers hpool).trans h.staff, ?_, ?_, hown, ?_, ?_⟩
      · dsimp only [Caller.rest]
        rw [hsubmitted, filterMap_update, List.append_assoc]
        exact hjobs
      · dsimp only [Caller.rest]
        rw [hpending, Nat.mod_eq_of_lt (by omega)]
        omega
      · intro j hj
        cases hj
      · intro hj
        cases hj
    · rename_i hcaller
      obtain rfl := Option.some.inj hs
      have hroom := h.room
      have hjobs := h.tasks
      rw [hcaller] at hroom hjobs
      refine ⟨⟨queued, hqueued, hcounted⟩, h.staff, hjobs, hroom, ?_, ?_, ?_⟩
      · rw [← h.staff]
        rfl
      · intro j hj
        cases hj
      · intro hj
        cases hj
    · cases hs
  | wait =>
    dsimp only at hs
    split at hs
    · rename_i hcaller
      obtain ⟨pool, hpool, rfl⟩ := Option.map_eq_some_iff.1 hs
      have hstep := h.poolStep (show Action.isSubmit .wait = false from rfl) hpool
      have hroom := hstep.room
      have hjobs := hstep.tasks
      have hown := hstep.own
      obtain rfl := Option.some.inj hpool
      rw [hcaller] at hroom hjobs hown
      refine ⟨hstep.sound, hstep.staff, hjobs, hroom, hown, ?_, ?_⟩
      · intro j hj
        obtain rfl := Caller.waiting.inj hj
        exact ⟨_, List.getElem?_concat_length, rfl⟩
      · intro hj
        cases hj
    · cases hs
  | finish =>
    dsimp only at hs
    split at hs
    · rename_i j hcaller
      split_ifs at hs with hreturned
      obtain rfl := Option.some.inj hs
      have hroom := h.room
      have hjobs := h.tasks
      have hown := h.own
      rw [hcaller] at hroom hjobs hown
      refine ⟨h.sound, h.staff, hjobs, hroom, hown, ?_, ?_⟩
      · intro j hj
        cases hj
      · intro _
        obtain ⟨w, hw, hbefore⟩ := h.waits j hcaller
        rw [hw] at hreturned
        have hfinished := (hcounted.waits w (List.mem_of_getElem? hw)).2 (Option.some.inj hreturned)
        rwa [hbefore] at hfinished
    · cases hs

theorem Submits.exec (h : Submits nItems workers all c) {as : List CallAction}
    (hs : Run.exec (Call.step nItems) c as = some c') : Submits nItems workers all c' := by
  induction as generalizing c with
  | nil => exact Option.some.inj hs ▸ h
  | cons a as ih =>
    obtain ⟨c₁, hc₁, hrest⟩ := Option.bind_eq_some_iff.1 hs
    exact ih (h.step hc₁) hrest

/-- When the call has returned, the callback has been invoked for the caller's own range and for
each job, once. -/
theorem Submits.invoked (h : Submits nItems workers all c) (hreturned : c.caller = .returned) :
    c.invoked.Perm (ownRange nItems (perChunk nItems (chunkCount nItems workers)) :: all) := by
  obtain ⟨queued, hqueued, -⟩ := h.sound
  have hnodup : c.pool.finished.Nodup :=
    (List.nodup_append.1 (hqueued.tasks.symm.nodup List.nodup_range)).2.1
  have hfinished : c.pool.finished.Perm (List.range c.pool.submitted) := by
    rw [List.perm_ext_iff_of_nodup hnodup List.nodup_range]
    intro t
    constructor
    · intro ht
      exact hqueued.tasks.mem_iff.1 (List.mem_append_right _ ht)
    · intro ht
      exact h.returned hreturned t (List.mem_range.1 ht)
  have hown := h.own
  have hjobs := h.tasks
  rw [hreturned] at hown hjobs
  unfold Call.invoked
  rw [hown, ← hjobs]
  refine List.Perm.cons _ ?_
  exact (hfinished.filterMap c.job).trans (List.Perm.of_eq (List.append_nil _).symm)

end Invariant

section Returns

variable (nItems : Nat) {workers : Nat} {all : List (Nat × Nat)} {c c' : Call}

theorem exists_submit (s : Pool) : ∃ woken s', s.submit woken = some s' := by
  unfold Pool.submit signal
  by_cases hasleep : Worker.asleep ∈ s.workers
  · obtain ⟨woken, hw⟩ := List.mem_iff_getElem?.1 hasleep
    refine ⟨woken, ?_⟩
    rw [if_pos hasleep, if_pos hw]
    exact ⟨_, rfl⟩
  · refine ⟨0, ?_⟩
    rw [if_neg hasleep]
    exact ⟨_, rfl⟩

/-- The caller can go on to the end of its own range. -/
theorem exec_next {rest : List (Nat × Nat)} (hcaller : c.caller = .submitting rest) :
    ∃ as c', Run.exec (Call.step nItems) c as = some c' ∧ c'.caller = .called := by
  induction rest generalizing c with
  | nil =>
    let own := ownRange nItems (perChunk nItems (chunkCount nItems c.pool.workers.length))
    refine ⟨[.next 0], { c with own := [own], caller := .called }, ?_, rfl⟩
    rw [Run.exec_cons, Call.step, hcaller]
    rfl
  | cons r rest ih =>
    obtain ⟨woken, pool, hpool⟩ := exists_submit c.pool
    let job := Function.update c.job c.pool.submitted (some r)
    let c₁ : Call := { c with pool := pool, job := job, caller := .submitting rest }
    have hc₁ : c.step nItems (.next woken) = some c₁ := by
      rw [Call.step, hcaller]
      dsimp only
      rw [hpool]
      rfl
    obtain ⟨as, c', hc', hcalled⟩ := ih (show c₁.caller = .submitting rest from rfl)
    refine ⟨.next woken :: as, c', ?_, hcalled⟩
    rw [Run.exec_cons, hc₁]
    exact hc'

/-- A run of the workers, with the caller where it is. -/
theorem exec_pool {as : List Action} {pool : Pool} (has : ∀ a ∈ as, a.IsWork)
    (hs : Run.exec Pool.step c.pool as = some pool) :
    Run.exec (Call.step nItems) c (as.map .pool) = some { c with pool := pool } := by
  induction as generalizing c with
  | nil =>
    obtain rfl := Option.some.inj hs
    rfl
  | cons a as ih =>
    obtain ⟨s₁, hs₁, hrest⟩ := Option.bind_eq_some_iff.1 hs
    have hstep : c.step nItems (.pool a) = some { c with pool := s₁ } := by
      rw [Call.step, if_neg (by simp [(has a List.mem_cons_self).quiet]), hs₁]
      rfl
    rw [List.map_cons, Run.exec_cons, hstep, Option.bind_some]
    exact ih (c := { c with pool := s₁ }) (fun b hb => has b (List.mem_cons_of_mem a hb)) hrest

/-- When no worker has a step to take, the wait returns at once. -/
theorem exec_wait {pool : Pool} {queued : List Nat} (hqueued : Queued pool queued)
    (hcounted : Counted pool queued) (hidle : ∀ a : Action, a.IsWork → pool.step a = none)
    (hpool : c.pool = pool) (hcaller : c.caller = .called) :
    ∃ as c', Run.exec (Call.step nItems) c as = some c' ∧ c'.caller = .returned := by
  subst hpool
  have hzero : c.pool.nPending = 0 := by
    obtain ⟨rfl, hexecuting⟩ := hqueued.idle hidle
    rw [hcounted.pending, hexecuting]
    rfl
  let waiters := c.pool.waiters ++ [⟨.returned, c.pool.submitted⟩]
  refine ⟨[.wait, .pool (.waitLook c.pool.waiters.length), .finish],
    { c with pool := { c.pool with waiters := waiters }, caller := .returned }, ?_, rfl⟩
  simp [Run.exec, Call.step, hcaller, Pool.step, Action.isSubmit, Pool.setWaiter, hzero, waiters]

/-- From any state of the call there is a run that returns. -/
theorem Submits.exists_returned {nItems : Nat} (h : Submits nItems workers all c) {rest : List (Nat × Nat)}
    (hcaller : c.caller = .submitting rest) :
    ∃ as c', Run.exec (Call.step nItems) c as = some c' ∧ c'.caller = .returned := by
  obtain ⟨as₁, c₁, hc₁, hcalled⟩ := exec_next nItems hcaller
  have h₁ : Submits nItems workers all c₁ := h.exec hc₁
  obtain ⟨queued₁, hqueued₁, -⟩ := h₁.sound
  obtain ⟨as₂, pool, has₂, hpool, hidle⟩ := hqueued₁.exists_idle
  have hc₂ := exec_pool nItems has₂ hpool
  obtain ⟨queued₂, hqueued₂, hcounted₂⟩ := (h₁.exec hc₂).sound
  obtain ⟨as₃, c₃, hc₃, hreturned⟩ := exec_wait nItems hqueued₂ hcounted₂ hidle rfl
    (show Call.caller { c₁ with pool := pool } = .called from hcalled)
  refine ⟨as₁ ++ (as₂.map .pool ++ as₃), c₃, ?_, hreturned⟩
  rw [Run.exec_append, hc₁, Option.bind_some, Run.exec_append, hc₂, Option.bind_some]
  exact hc₃

end Returns

section Main

variable {nItems : Nat} {io : Nat → ChunkIo} {pool : Pool}

theorem start_caller (hitems : nItems ≠ 0) (hworkers : 1 < pool.workers.length) :
    (Call.start pool nItems io).caller = .submitting (jobs nItems io pool.workers.length) := by
  unfold Call.start
  dsimp only
  rw [if_neg hitems, if_neg (by omega)]

theorem length_jobsFrom_le (per more c : Nat) :
    (jobsFrom nItems io per more c).length ≤ more := by
  induction more generalizing c with
  | zero => exact Nat.le_refl 0
  | succ more ih =>
    have hrest := ih (c + 1)
    unfold jobsFrom
    split_ifs
    · exact Nat.zero_le _
    · rw [List.length_cons]
      omega
    · omega

theorem length_jobs_lt {workers : Nat} (hworkers : 1 < workers) :
    (jobs nItems io workers).length < workers := by
  have hchunks : chunkCount nItems workers ≤ workers := chunkCount_le_workers workers
  refine Nat.lt_of_le_of_lt (length_jobsFrom_le _ _ 1) ?_
  omega

theorem Submits.start (io : Nat → ChunkIo) (hitems : nItems ≠ 0) (hworkers : 1 < pool.workers.length)
    (hroom : pool.nPending + pool.workers.length ≤ 2 ^ 32)
    (hsound : ∃ queued, Queued pool queued ∧ Counted pool queued) :
    Submits nItems pool.workers.length (jobs nItems io pool.workers.length)
      (.start pool nItems io) := by
  unfold Call.start
  dsimp only
  rw [if_neg hitems, if_neg (by omega)]
  refine ⟨hsound, rfl, ?_, ?_, rfl, ?_, ?_⟩
  · dsimp only [Caller.rest]
    rw [List.filterMap_eq_nil_iff.2 fun _ _ => rfl, List.nil_append]
  · have hjobs : (jobs nItems io pool.workers.length).length < _ := length_jobs_lt hworkers
    dsimp only [Caller.rest]
    omega
  · intro j hj
    cases hj
  · intro hj
    cases hj

/-- A call that has returned takes no step of its own any more. -/
theorem Call.returned_step {c c' : Call} {a : CallAction} (h : c.caller = .returned)
    (hjob : c.job = fun _ => none) (hs : c.step nItems a = some c') :
    c'.caller = .returned ∧ (c'.job = fun _ => none) ∧ c'.own = c.own := by
  unfold Call.step at hs
  cases a with
  | pool a =>
    dsimp only at hs
    split_ifs at hs
    obtain ⟨pool, -, rfl⟩ := Option.map_eq_some_iff.1 hs
    exact ⟨h, hjob, rfl⟩
  | next woken => simp [h] at hs
  | wait => simp [h] at hs
  | finish => simp [h] at hs

/-- Without workers to share with, the caller does all of it. -/
theorem always_alone (io : Nat → ChunkIo) (h : nItems = 0 ∨ pool.workers.length ≤ 1) (as : List CallAction) :
    Run.Always (Call.step nItems) (fun c => Partitions nItems c.invoked)
      (.start pool nItems io) as := by
  have hinvariant : Run.Always (Call.step nItems)
      (fun c => c.caller = .returned ∧ (c.job = fun _ => none) ∧ Partitions nItems c.own)
      (.start pool nItems io) as := by
    refine Run.always_of_guarded (G := fun _ _ => True) ?_ ?_ fun _ _ _ _ _ => trivial
    · rintro c a c' ⟨hcaller, hjob, hown⟩ - hstep
      obtain ⟨hcaller', hjob', hown'⟩ := Call.returned_step hcaller hjob hstep
      exact ⟨hcaller', hjob', hown' ▸ hown⟩
    · unfold Call.start
      dsimp only
      split_ifs with hitems hworkers
      · rw [hitems]
        exact ⟨rfl, rfl, Tiles.partitions rfl⟩
      · exact ⟨rfl, rfl, partitions_single nItems⟩
      · exact absurd h (by omega)
  refine hinvariant.imp ?_
  rintro c ⟨-, hjob, hown⟩
  unfold Call.invoked
  rw [hjob, List.filterMap_eq_nil_iff.2 fun _ _ => rfl, List.append_nil]
  exact hown

end Main

/-- A call that returns has covered its items exactly when it shares them with nobody or queues all
of its chunks. -/
theorem always_covers_iff {nItems nWorkers : Nat} {as : List Action} {pool : Pool}
    (io : Nat → ChunkIo) (hitems : nItems < 2 ^ 32)
    (hguarded : Run.Guarded Pool.step Room (.create nWorkers) as)
    (hpool : Run.exec Pool.step (.create nWorkers) as = some pool)
    (hroom : pool.nPending + pool.workers.length ≤ 2 ^ 32) :
    (∀ calls, Run.Always (Call.step nItems)
        (fun c => c.caller = .returned → Partitions nItems c.invoked)
        (.start pool nItems io) calls) ↔
      nItems = 0 ∨ pool.workers.length ≤ 1 ∨ AllQueued nItems io pool.workers.length := by
  have hsound := always_counted hguarded as pool (List.prefix_refl _) hpool
  by_cases halone : nItems = 0 ∨ pool.workers.length ≤ 1
  · refine iff_of_true (fun calls => ?_) (halone.imp_right Or.inl)
    refine (always_alone io halone calls).imp ?_
    intro c hc _
    exact hc
  · have hzero : nItems ≠ 0 := fun h => halone (Or.inl h)
    have hworkers : 1 < pool.workers.length := by omega
    have hstart := Submits.start io hzero hworkers hroom hsound
    constructor
    · intro h
      obtain ⟨calls, c, hc, hreturned⟩ := hstart.exists_returned (start_caller hzero hworkers)
      have hpartitions := h calls calls c (List.prefix_refl _) hc hreturned
      have hjobs := hpartitions.perm ((hstart.exec hc).invoked hreturned)
      exact Or.inr (Or.inr (allQueued_of_partitions (by omega) hworkers hitems hjobs))
    · intro h calls done c _ hc hreturned
      have hall : AllQueued nItems io pool.workers.length := by
        rcases h with h | h | h
        · exact absurd h hzero
        · omega
        · exact h
      have hjobs := hall.partitions (by omega) hworkers
      exact hjobs.perm ((hstart.exec hc).invoked hreturned).symm

section Example

/-- Five items in a fresh pool of two workers, no allocation failing. -/
theorem always_covers_fiveItems : Run.Always (Call.step 5)
    (fun c => c.caller = .returned → Partitions 5 c.invoked)
    (.start (.create 2) 5 fun _ => ⟨true, true⟩)
    [.next 0, .next 1, .wait, .pool (.waitLook 0), .finish] := by
  have hfresh : Run.Guarded Pool.step Room (.create 2) [] := Run.guarded_nil
  refine (always_covers_iff _ (by decide) hfresh rfl (by decide)).2 (Or.inr (Or.inr ⟨?_, ?_⟩)) _
  · decide
  · exact fun _ _ _ _ => ⟨rfl, rfl⟩

/-- The allocation of the job for the chunk 1 fails. -/
def failsOnce (c : Nat) : ChunkIo := ⟨c != 1, true⟩

/-- One index is in no range for which the callback was invoked. -/
theorem failed_chunk_uncovered : ¬ ∀ (nItems nWorkers : Nat) (io : Nat → ChunkIo)
    (calls : List CallAction), nItems < 2 ^ 32 →
      Run.Always (Call.step nItems) (fun c => c.caller = .returned → Partitions nItems c.invoked)
        (.start (.create nWorkers) nItems io) calls := by
  intro h
  have hrun := h 2 2 failsOnce [.next 0, .wait, .pool (.waitLook 0), .finish] (by decide)
    _ _ (List.prefix_refl _) rfl rfl
  have hcovers := hrun.covers 1 (by decide)
  revert hcovers
  decide

end Example

end Calls

end VgEngine.ThreadPool
