import VgEngine.Lib.LinkedQueue
import VgEngine.Lib.Run
import Mathlib.Tactic.Ring

/-! The thread pool on POSIX systems. Steps are the critical sections of the lock, and what is done
between them. Nobody destroys the pool, so `shutdown` stays 0. -/
namespace VgEngine.ThreadPool
open Lib

/-- Where a worker stands: it is about to look at the queue, asleep on `cond`, in the body of a
task, or past it and about to take the lock. -/
inductive Worker where
  | looking
  | asleep
  | running (t : Nat)
  | ran (t : Nat)
deriving DecidableEq, Repr

/-- The task whose body the worker runs. -/
def Worker.task : Worker → Option Nat
  | .running t => some t
  | _ => none

/-- The worker has taken a task and not accounted for it yet. -/
def Worker.busy : Worker → Bool
  | .running _ => true
  | .ran _ => true
  | _ => false

/-- Where a call of `vg_threadpool_wait` stands. -/
inductive Stage where
  | looking
  | asleep
  | returned
deriving DecidableEq, Repr

/-- A call of `vg_threadpool_wait`, and how many tasks had been submitted before it. -/
structure Waiter where
  stage : Stage
  before : Nat
deriving DecidableEq, Repr

/-- `VG_ThreadPool`, with its workers and the calls that wait for it. Tasks are numbered in the
order they are submitted; `finished` lists those whose bodies have run, as often as they have. -/
structure Pool where
  queue : LinkedQueue Nat
  nPending : Nat
  workers : List Worker
  waiters : List Waiter
  submitted : Nat
  finished : List Nat

/-- `vg_threadpool_create` -/
def Pool.create (nWorkers : Nat) : Pool where
  queue := .empty
  nPending := 0
  workers := List.replicate (if nWorkers = 0 then 1 else nWorkers) .looking
  waiters := []
  submitted := 0
  finished := []

inductive Action where
  /-- A whole submission; if workers sleep on `cond`, the one at position `woken` is signalled. -/
  | submit (callocOk : Bool) (woken : Nat)
  | look (i : Nat)
  /-- A worker wakes up without a signal, or with one that woke others too. -/
  | wake (i : Nat)
  | body (i : Nat)
  | account (i : Nat)
  /-- `vg_threadpool_wait` is called. -/
  | wait
  | waitLook (j : Nat)
  | waitWake (j : Nat)
deriving DecidableEq, Repr

/-- The steps of the workers themselves. -/
def Action.IsWork : Action → Prop
  | .look _ => True
  | .body _ => True
  | .account _ => True
  | _ => False

/-- `pthread_cond_signal` -/
def signal (workers : List Worker) (woken : Nat) : Option (List Worker) :=
  if .asleep ∈ workers then
    if workers[woken]? = some .asleep then some (workers.set woken .looking) else none
  else some workers

/-- `pthread_cond_broadcast` -/
def broadcast (waiters : List Waiter) : List Waiter :=
  waiters.map fun w => if w.stage = .asleep then { w with stage := .looking } else w

namespace Pool

variable (s : Pool)

def setWorker (i : Nat) (w : Worker) : Pool := { s with workers := s.workers.set i w }

def setWaiter (j : Nat) (w : Waiter) : Pool := { s with waiters := s.waiters.set j w }

/-- `vg_threadpool_submit`, its `calloc` succeeding. -/
def submit (woken : Nat) : Option Pool :=
  (signal s.workers woken).map fun workers => { s with
    queue := s.queue.push s.submitted
    nPending := (s.nPending + 1) % 2 ^ 32
    workers := workers
    submitted := s.submitted + 1 }

/-- A worker holds the lock: it takes the task at the head, or goes to sleep. -/
def look (i : Nat) : Pool :=
  match s.queue.pop with
  | none => s.setWorker i .asleep
  | some (t, queue) => { s.setWorker i (.running t) with queue := queue }

/-- The end of a task, on the counter. -/
def account (i : Nat) : Pool :=
  let s := s.setWorker i .looking
  if s.nPending = 0 then s
  else
    { s with
      nPending := s.nPending - 1
      waiters := if s.nPending - 1 = 0 then broadcast s.waiters else s.waiters }

def step (a : Action) : Option Pool :=
  match a with
  | .submit callocOk woken => if callocOk then s.submit woken else some s
  | .look i => if s.workers[i]? = some .looking then some (s.look i) else none
  | .wake i => if s.workers[i]? = some .asleep then some (s.setWorker i .looking) else none
  | .body i =>
    match s.workers[i]? with
    | some (.running t) => some { s.setWorker i (.ran t) with finished := s.finished ++ [t] }
    | _ => none
  | .account i =>
    match s.workers[i]? with
    | some (.ran _) => some (s.account i)
    | _ => none
  | .wait => some { s with waiters := s.waiters ++ [⟨.looking, s.submitted⟩] }
  | .waitLook j =>
    match s.waiters[j]? with
    | some ⟨.looking, before⟩ =>
      some (s.setWaiter j ⟨if 0 < s.nPending then .asleep else .returned, before⟩)
    | _ => none
  | .waitWake j =>
    match s.waiters[j]? with
    | some ⟨.asleep, before⟩ => some (s.setWaiter j ⟨.looking, before⟩)
    | _ => none

/-- The tasks whose bodies are running. -/
def running : List Nat := s.workers.filterMap Worker.task

/-- How many tasks have been taken off the queue and are not accounted for yet. -/
def executing : Nat := s.workers.countP Worker.busy

end Pool

/-- What is claimed of a pool. Each task that was submitted is in one place: in the queue, in its
body, or finished, once. Whatever order the workers take their steps in, they come to an end, and
then all tasks are finished. -/
structure Accounted (s : Pool) : Prop where
  pending : ∃ queued, s.queue.Holds queued ∧ s.nPending = queued.length + s.executing ∧
    (queued ++ s.running ++ s.finished).Perm (List.range s.submitted)
  waits : ∀ w ∈ s.waiters, w.stage = .returned → ∀ t < w.before, t ∈ s.finished
  ends : ∃ bound, ∀ as s', (∀ a ∈ as, a.IsWork) → Run.exec Pool.step s as = some s' →
    as.length ≤ bound ∧
      ((∀ a : Action, a.IsWork → s'.step a = none) →
        s'.finished.Perm (List.range s.submitted))

end VgEngine.ThreadPool
