import VgEngine.TensorSource.Model
import VgEngine.Lib.Run
import Mathlib.Logic.Function.Basic

/-! Asynchronous prefetches: requests go through a queue to the one thread that serves them, and
what it reads is left in the caller's entry. Steps are the critical sections of the lock, and what
is done between them; the thread is that of POSIX systems, which `close` joins. -/
namespace VgEngine.TensorSource
open Gguf

/-- `VG_PrefetchEntry`, in the memory of the caller. -/
structure PrefetchEntry where
  name : List UInt8
  tier : Tier
  data : Option Nat
  bytes : Nat
  ready : Bool
  error : Bool
deriving DecidableEq, Repr

/-- `VG_IORequest` in the queue. Entries and requests are numbered. -/
structure IORequest where
  id : Nat
  name : List UInt8
  tier : Tier
  entry : Nat
deriving DecidableEq, Repr

/-- Where the thread stands: it is about to look at the queue, it has found nothing there and is
about to read `io_running`, it has taken a request, or it has returned. -/
inductive Worker where
  | absent
  | polling
  | checking
  | working (r : IORequest)
  | exited
deriving DecidableEq, Repr

/-- A call of `vg_tensor_prefetch_async` that has cleared the entry. -/
structure PendingCall where
  entry : Nat
  name : List UInt8
  tier : Tier
deriving DecidableEq, Repr

/-- A source with its queue and its thread, and the entries of the callers; `accepted` says of an
entry that the last call on it has returned `VG_OK`. -/
structure Io where
  state : State
  running : Bool
  queue : List IORequest
  nextId : Nat
  worker : Worker
  entries : Nat → PrefetchEntry
  pending : List PendingCall
  accepted : Nat → Bool
  closed : Bool

/-- The thread that `vg_tensor_source_open` starts: one, for any number of workers but none. -/
def Io.opened (file : Handle) (cfg : Option Config) (ioWorkers : Nat)
    (entries : Nat → PrefetchEntry) : Io where
  state := ⟨Source.opened file cfg, .empty⟩
  running := 0 < ioWorkers
  queue := []
  nextId := 0
  worker := if 0 < ioWorkers then .polling else .absent
  entries := entries
  pending := []
  accepted := fun _ => false
  closed := false

/-- `vg_tensor_prefetch` of one name. -/
def prefetch (st : State) (name : List UInt8) (desired : Tier) (o : Outcome) :
    Except Status Unit × State :=
  match acquire st name desired o with
  | (.error status, st) => (.error status, st)
  | (.ok l, st) => (.ok (), release st l)

/-- How the allocation and the read for one request turn out. -/
structure ServeIo where
  mallocOk : Bool
  read : ReadIo

inductive Action where
  /-- The entry is cleared. -/
  | call (entry : Nat) (name : List UInt8) (tier : Tier)
  /-- The rest of a call, without a thread. -/
  | sync (i : Nat) (o : Outcome)
  /-- The rest of a call, with one. -/
  | enqueue (i : Nat) (callocOk : Bool)
  | poll
  | check
  | serve (io : ServeIo)
  /-- `close` clears `io_running`. -/
  | closeBegin
  /-- `close` has joined the thread, if there is one, and frees the source. -/
  | closeEnd

namespace Io

variable (s : Io)

def setEntry (r : IORequest) (f : PrefetchEntry → PrefetchEntry) : Io :=
  { s with entries := Function.update s.entries r.entry (f (s.entries r.entry)) }

def failEntry (e : PrefetchEntry) : PrefetchEntry := { e with error := true, ready := true }

/-- What the thread does with a request that it has taken. -/
def publish (r : IORequest) (io : ServeIo) : Io :=
  match findTensor s.state.source.file.index r.name with
  | none => s.setEntry r failEntry
  | some (_, t) =>
    if io.mallocOk = false then s.setEntry r failEntry
    else
      let read := ggufRead io.read s.state.source.file t 0 t.nbytes
      let s := { s with state := { s.state with source := { s.state.source with file := read.2 } } }
      match read.1 with
      | .error _ => s.setEntry r failEntry
      | .ok bytes =>
        let block := s.state.memory.next
        let s := { s with state := { s.state with memory := s.state.memory.alloc bytes } }
        s.setEntry r fun e =>
          { e with data := some block, bytes := t.nbytes, ready := true, error := false }

/-- One look at the queue. -/
def polled : Io :=
  match s.queue with
  | [] => { s with worker := .checking }
  | r :: queue => { s with queue := queue, worker := .working r }

def checked : Io := { s with worker := if s.running then .polling else .exited }

/-- The thread by itself. -/
def workerStep (io : ServeIo) : Io :=
  match s.worker with
  | .polling => s.polled
  | .checking => s.checked
  | .working r => { s.publish r io with worker := .polling }
  | .absent => s
  | .exited => s

def called (entry : Nat) (name : List UInt8) (tier : Tier) : Io :=
  { s with
    entries := Function.update s.entries entry ⟨name, tier, none, 0, false, false⟩
    pending := s.pending ++ [⟨entry, name, tier⟩]
    accepted := Function.update s.accepted entry false }

def accept (entry : Nat) : Io := { s with accepted := Function.update s.accepted entry true }

def synced (i : Nat) (c : PendingCall) (o : Outcome) : Io :=
  match prefetch s.state c.name c.tier o with
  | (.error _, st) => { s with state := st, pending := s.pending.eraseIdx i }
  | (.ok (), st) => accept { s with state := st, pending := s.pending.eraseIdx i } c.entry

def enqueued (i : Nat) (c : PendingCall) (callocOk : Bool) : Io :=
  let s := { s with pending := s.pending.eraseIdx i }
  if callocOk then
    let r : IORequest := ⟨s.nextId, c.name, c.tier, c.entry⟩
    accept { s with queue := s.queue ++ [r], nextId := s.nextId + 1 } c.entry
  else s

/-- The blocks of the cache are freed, and what is left of the queue. -/
def freed : Io :=
  { s with
    state := ⟨s.state.source, (s.state.source.entries.filter CacheEntry.owns).foldl
      (fun m e => m.free e.data) s.state.memory⟩
    queue := []
    closed := true }

def step : Action → Option Io
  | .call entry name tier => if s.closed then none else some (s.called entry name tier)
  | .sync i o =>
    match s.pending[i]? with
    | none => none
    | some c => if s.closed ∨ s.worker ≠ .absent then none else some (s.synced i c o)
  | .enqueue i callocOk =>
    match s.pending[i]? with
    | none => none
    | some c => if s.closed ∨ s.worker = .absent then none else some (s.enqueued i c callocOk)
  | .poll => if s.closed ∨ s.worker ≠ .polling then none else some s.polled
  | .check => if s.closed ∨ s.worker ≠ .checking then none else some s.checked
  | .serve io =>
    match s.worker with
    | .working r => if s.closed then none else some { s.publish r io with worker := .polling }
    | _ => none
  | .closeBegin =>
    if s.closed ∨ s.worker = .absent ∨ s.running = false then none else some { s with running := false }
  | .closeEnd =>
    if s.closed ∨ (s.worker ≠ .absent ∧ s.worker ≠ .exited) then none else some s.freed

/-- One look of `vg_tensor_wait`: its status, once the entry is ready. -/
def wait (entry : Nat) : Option Status :=
  if (s.entries entry).ready then some (if (s.entries entry).error then .io else .ok) else none

end Io

end VgEngine.TensorSource
