import VgEngine.ThreadPool.Accounting

/-! The thread pool on Windows: the workers wait at a semaphore, which each submission releases
once. The semaphore counts to the number of workers, the queue has no bound. -/
namespace VgEngine.ThreadPool
open Lib

/-- Where a worker stands: at the semaphore, past it and about to take the lock, in the body of a
task, or past it. -/
inductive SemWorker where
  | waiting
  | admitted
  | running (t : Nat)
  | ran (t : Nat)
deriving DecidableEq, Repr

/-- `VG_ThreadPool` with its workers. `releasing` counts the calls of `vg_threadpool_submit` that
have queued their task and not released the semaphore yet. -/
structure SemPool where
  queue : LinkedQueue Nat
  nPending : Nat
  count : Nat
  maximum : Nat
  workers : List SemWorker
  submitted : Nat
  releasing : Nat

/-- `vg_threadpool_create` -/
def SemPool.create (nWorkers : Nat) : SemPool :=
  let nWorkers := if nWorkers = 0 then 1 else nWorkers
  { queue := .empty
    nPending := 0
    count := 0
    maximum := nWorkers
    workers := List.replicate nWorkers .waiting
    submitted := 0
    releasing := 0 }

inductive SemAction where
  /-- The task of a submission is queued, unless its `calloc` fails. -/
  | push (callocOk : Bool)
  /-- The end of a submission. -/
  | release
  | acquire (i : Nat)
  | look (i : Nat)
  | body (i : Nat)
  | account (i : Nat)
deriving DecidableEq, Repr

namespace SemPool

variable (s : SemPool)

def setWorker (i : Nat) (w : SemWorker) : SemPool := { s with workers := s.workers.set i w }

def push : SemPool := { s with
  queue := s.queue.push s.submitted
  nPending := (s.nPending + 1) % 2 ^ 32
  submitted := s.submitted + 1
  releasing := s.releasing + 1 }

/-- `ReleaseSemaphore`, which has no effect beyond the maximum. -/
def release : SemPool := { s with
  count := if s.count < s.maximum then s.count + 1 else s.count
  releasing := s.releasing - 1 }

def look (i : Nat) : SemPool :=
  match s.queue.pop with
  | none => s.setWorker i .waiting
  | some (t, queue) => { s.setWorker i (.running t) with queue := queue }

def step (a : SemAction) : Option SemPool :=
  match a with
  | .push callocOk => some (if callocOk then s.push else s)
  | .release => if 0 < s.releasing then some s.release else none
  | .acquire i =>
    if s.workers[i]? = some .waiting ∧ 0 < s.count then
      some { s.setWorker i .admitted with count := s.count - 1 }
    else none
  | .look i => if s.workers[i]? = some .admitted then some (s.look i) else none
  | .body i =>
    match s.workers[i]? with
    | some (.running t) => some (s.setWorker i (.ran t))
    | _ => none
  | .account i =>
    match s.workers[i]? with
    | some (.ran _) => some { s.setWorker i .waiting with nPending := s.nPending - 1 }
    | _ => none

/-- Tasks are queued, all workers wait at the semaphore, it is at zero, and no submission is about
to release it. -/
def Stuck : Prop :=
  s.queue.head ≠ none ∧ (∀ w ∈ s.workers, w = .waiting) ∧ s.count = 0 ∧ s.releasing = 0

instance : Decidable s.Stuck :=
  inferInstanceAs (Decidable (s.queue.head ≠ none ∧ (∀ w ∈ s.workers, w = .waiting) ∧ s.count = 0 ∧
    s.releasing = 0))

/-- A release finds the semaphore below its maximum. -/
def HasRoom (s : SemPool) : SemAction → Prop
  | .release => s.count < s.maximum
  | _ => True

instance (s : SemPool) (a : SemAction) : Decidable (HasRoom s a) :=
  match a with
  | .release => inferInstanceAs (Decidable (s.count < s.maximum))
  | .push _ => isTrue trivial
  | .acquire _ => isTrue trivial
  | .look _ => isTrue trivial
  | .body _ => isTrue trivial
  | .account _ => isTrue trivial

/-- How many workers are about to look at the queue. -/
def admitted : Nat := s.workers.countP (· == .admitted)

/-- There is a release, done or to come, for each task in the queue. -/
structure Covered (queued : List Nat) : Prop where
  links : s.queue.Holds queued
  fresh : ∀ t ∈ queued, t < s.submitted
  tokens : queued.length ≤ s.count + s.admitted + s.releasing

variable {s} {s' : SemPool} {queued : List Nat}

theorem admitted_setWorker {i : Nat} {w : SemWorker} (hw : s.workers[i]? = some w) (v : SemWorker) :
    (s.setWorker i v).admitted + (w == .admitted).toNat = s.admitted + (v == .admitted).toNat := by
  unfold admitted setWorker
  rw [(perm_of_getElem? hw).countP_eq, (set_perm_of_getElem? hw v).countP_eq, List.countP_cons,
    List.countP_cons]
  cases (w == .admitted) <;> cases (v == .admitted) <;> simp

/-- A worker moves on, and the queue stays. -/
theorem Covered.move (h : s.Covered queued) {i : Nat} {w v : SemWorker}
    (hw : s.workers[i]? = some w) (hwas : (w == .admitted) = false) :
    (s.setWorker i v).Covered queued := by
  refine ⟨h.links, h.fresh, ?_⟩
  have hadmitted := admitted_setWorker hw v
  have htokens := h.tokens
  rw [hwas, Bool.toNat_false] at hadmitted
  change queued.length ≤ s.count + (s.setWorker i v).admitted + s.releasing
  omega

theorem Covered.push (h : s.Covered queued) : s.push.Covered (queued ++ [s.submitted]) := by
  have hnew : s.submitted ∉ queued := fun hmem => Nat.lt_irrefl _ (h.fresh _ hmem)
  refine ⟨h.links.push hnew, ?_, ?_⟩
  · intro t ht
    rcases List.mem_append.1 ht with ht | ht
    · exact Nat.lt_succ_of_lt (h.fresh t ht)
    · rw [List.mem_singleton.1 ht]
      exact Nat.lt_succ_self _
  · have htokens := h.tokens
    rw [List.length_append, List.length_singleton]
    change queued.length + 1 ≤ s.count + s.admitted + (s.releasing + 1)
    omega

theorem Covered.release (h : s.Covered queued) (hroom : s.count < s.maximum) :
    s.release.Covered queued := by
  refine ⟨h.links, h.fresh, ?_⟩
  have htokens := h.tokens
  unfold SemPool.release
  rw [if_pos hroom]
  change queued.length ≤ s.count + 1 + s.admitted + (s.releasing - 1)
  omega

theorem Covered.look (h : s.Covered queued) {i : Nat} (hw : s.workers[i]? = some .admitted) :
    ∃ queued', (s.look i).Covered queued' := by
  unfold SemPool.look
  have htokens := h.tokens
  cases queued with
  | nil =>
    rw [h.links.pop_nil]
    exact ⟨[], h.links, h.fresh, Nat.zero_le _⟩
  | cons t queued =>
    obtain ⟨queue, hpop, hlinks⟩ := h.links.pop_cons
    rw [hpop]
    refine ⟨queued, hlinks, fun t' ht' => h.fresh t' (List.mem_cons_of_mem t ht'), ?_⟩
    have hadmitted := admitted_setWorker hw (.running t)
    rw [List.length_cons] at htokens
    change queued.length ≤ s.count + (s.setWorker i (.running t)).admitted + s.releasing
    simp only [BEq.rfl, Bool.toNat_true] at hadmitted
    omega

/-- One step, with room for what is released. -/
theorem Covered.step (h : s.Covered queued) {a : SemAction} (hroom : HasRoom s a)
    (hs : s.step a = some s') : ∃ queued', s'.Covered queued' := by
  unfold SemPool.step at hs
  cases a with
  | push callocOk =>
    obtain rfl := Option.some.inj hs
    cases callocOk
    · exact ⟨queued, h⟩
    · exact ⟨_, h.push⟩
  | release =>
    dsimp only at hs
    split_ifs at hs
    obtain rfl := Option.some.inj hs
    exact ⟨queued, h.release hroom⟩
  | acquire i =>
    dsimp only at hs
    split_ifs at hs with hacquire
    obtain rfl := Option.some.inj hs
    obtain ⟨hw, hpositive⟩ := hacquire
    refine ⟨queued, h.links, h.fresh, ?_⟩
    have hadmitted := admitted_setWorker hw .admitted
    have htokens := h.tokens
    change queued.length ≤ s.count - 1 + (s.setWorker i .admitted).admitted + s.releasing
    simp only [BEq.rfl, Bool.toNat_true] at hadmitted
    have hwaiting : (SemWorker.waiting == SemWorker.admitted) = false := rfl
    rw [hwaiting, Bool.toNat_false] at hadmitted
    omega
  | look i =>
    dsimp only at hs
    split_ifs at hs with hw
    obtain rfl := Option.some.inj hs
    exact h.look hw
  | body i =>
    dsimp only at hs
    split at hs
    · rename_i t hw
      obtain rfl := Option.some.inj hs
      exact ⟨queued, h.move hw rfl⟩
    · cases hs
  | account i =>
    dsimp only at hs
    split at hs
    · rename_i t hw
      obtain rfl := Option.some.inj hs
      have hmoved : (s.setWorker i .waiting).Covered queued := h.move hw rfl
      exact ⟨queued, hmoved.links, hmoved.fresh, hmoved.tokens⟩
    · cases hs

theorem Covered.not_stuck (h : s.Covered queued) : ¬ s.Stuck := by
  rintro ⟨hhead, hwaiting, hcount, hreleasing⟩
  have hadmitted : s.admitted = 0 := by
    unfold admitted
    rw [List.countP_eq_zero]
    intro w hw
    rw [hwaiting w hw]
    simp
  have htokens := h.tokens
  obtain rfl : queued = [] := List.length_eq_zero_iff.1 (by omega)
  exact hhead h.links.head

theorem Covered.create (nWorkers : Nat) : (SemPool.create nWorkers).Covered [] :=
  ⟨LinkedQueue.holds_empty, by simp, Nat.zero_le _⟩

/-- In every run whose releases all find room, no state is stuck. -/
theorem never_stuck (nWorkers : Nat) (as : List SemAction)
    (hroom : Run.Guarded step HasRoom (create nWorkers) as) :
    Run.Always step (fun s => ¬ s.Stuck) (create nWorkers) as := by
  have hinvariant : Run.Always step (fun s => ∃ queued, s.Covered queued) (create nWorkers) as := by
    refine Run.always_of_guarded ?_ ⟨[], .create nWorkers⟩ hroom
    rintro s a s' ⟨queued, h⟩ ha hstep
    exact h.step ha hstep
  refine hinvariant.imp ?_
  rintro s ⟨queued, h⟩
  exact h.not_stuck

theorem never_stuck_twoWorkers : Run.Always step (fun s => ¬ s.Stuck) (create 2)
    [.push true, .release, .acquire 0, .push true, .release, .look 0, .acquire 1, .look 1, .body 0,
      .account 0] :=
  never_stuck 2 _ (Run.guarded_of_check (by decide +kernel))

/-- A burst of two tasks while the only worker is busy: the second release is lost. -/
def burst : List SemAction :=
  [.push true, .release, .acquire 0, .look 0, .push true, .release, .push true, .release, .body 0,
    .account 0, .acquire 0, .look 0, .body 0, .account 0]

theorem burst_sticks : ¬ ∀ (nWorkers : Nat) (as : List SemAction),
    Run.Always step (fun s => ¬ s.Stuck) (create nWorkers) as := by
  intro hclaim
  have hstuck : (Run.exec step (create 1) burst).any (fun s => decide s.Stuck) = true := by
    decide +kernel
  obtain ⟨s, hs, hstuck⟩ := (Option.any_eq_true _ _).1 hstuck
  exact hclaim 1 burst burst s (List.prefix_refl _) hs (of_decide_eq_true hstuck)

end SemPool

end VgEngine.ThreadPool
