import VgEngine.Gguf.Read
import VgEngine.Lib.Memory

/-! The tensor source: a cache of tensors read from the file, with leases on its
entries. -/
namespace VgEngine.TensorSource
open Gguf

/-- Where lease data points: a block, or an offset in the mapped file. -/
inductive Data where
  | block (b : Nat)
  | mapping (offset : Nat)
deriving DecidableEq, Repr

/-- `VG_CacheEntry`. A tensor is named by its position in the tensor table. -/
structure CacheEntry where
  tensor : Nat
  data : Nat
  bytes : Nat
  refs : Nat
  age : Nat
  ticket : Nat
  tier : Tier
  owns : Bool
deriving DecidableEq, Repr

structure Config where
  hostBudgetBytes : Nat
  pinnedBudgetBytes : Nat
  deviceBudgetBytes : Nat
  useMmap : Bool
  useDirectIo : Bool
deriving DecidableEq, Repr

structure Stats where
  lookups : Nat
  hits : Nat
  misses : Nat
  bytesRead : Nat
  bytesResident : Nat
  bytesDevice : Nat
  bytesBudget : Nat
  deviceBudget : Nat
  evictions : Nat
deriving DecidableEq, Repr

structure Source where
  file : Handle
  cfg : Config
  entries : List CacheEntry
  capacity : Nat
  clock : Nat
  nextTicket : Nat
  stats : Stats

structure Lease where
  tensor : Nat
  data : Data
  size : Nat
  tier : Tier
  ticket : Nat
  mapped : Bool
deriving DecidableEq, Repr

structure State where
  source : Source
  memory : Memory (List UInt8)

/-- Increment of a 64-bit counter. -/
def inc64 (n : Nat) : Nat := (n + 1) % 2 ^ 64

/-- `vg_tensor_source_open`, with the defaults it takes without a configuration. -/
def Source.opened (file : Handle) (cfg : Option Config) : Source :=
  let cfg := cfg.getD ⟨512 * 1024 * 1024, 0, 0, true, false⟩
  { file := { file with directIo := file.directIo || cfg.useDirectIo }
    cfg := cfg
    entries := []
    capacity := 0
    clock := 0
    nextTicket := 0
    stats := ⟨0, 0, 0, 0, 0, 0, cfg.hostBudgetBytes, cfg.deviceBudgetBytes, 0⟩ }

def residentBytes (entries : List CacheEntry) : Nat :=
  ((entries.filter CacheEntry.owns).map CacheEntry.bytes).sum % 2 ^ 64

def removeEntry (st : State) (i : Nat) : State :=
  match st.source.entries[i]? with
  | none => st
  | some e =>
    { source := { st.source with
        entries := st.source.entries.eraseIdx i
        stats := { st.source.stats with evictions := inc64 st.source.stats.evictions } }
      memory := if e.owns then st.memory.free e.data else st.memory }

def findEntry (entries : List CacheEntry) (tensor : Nat) (tier : Tier) : Option Nat :=
  entries.findIdx? fun e => e.tensor == tensor && e.tier == tier

/-- The search for the oldest unpinned entry, from position `i` on. -/
def victimFrom : Nat → Option Nat → Nat → List CacheEntry → Option Nat
  | _, victim, _, [] => victim
  | i, victim, age, e :: es =>
    if e.owns = true ∧ e.refs = 0 ∧ e.age < age then victimFrom (i + 1) (some i) e.age es
    else victimFrom (i + 1) victim age es

def victim (entries : List CacheEntry) : Option Nat := victimFrom 0 none (2 ^ 64 - 1) entries

/-- The loop condition of `evict_for`; `budget - need` wraps. -/
def overBudget (s : Source) (need : Nat) : Bool :=
  s.cfg.hostBudgetBytes < residentBytes s.entries ∨
    (need ≠ 0 ∧ sub64 s.cfg.hostBudgetBytes need < residentBytes s.entries)

/-- Each pass removes an entry, so the number of entries bounds the passes. -/
def evictLoop : Nat → Nat → State → State
  | 0, _, st => st
  | fuel + 1, need, st =>
    if overBudget st.source need then
      match victim st.source.entries with
      | none => st
      | some i => evictLoop fuel need (removeEntry st i)
    else st

def evictFor (st : State) (need : Nat) : State :=
  if st.source.cfg.hostBudgetBytes = 0 then st
  else evictLoop st.source.entries.length need st

/-- How the system and library calls of one `vg_tensor_acquire` turn out. -/
structure Outcome where
  map1 : Bool
  map2 : Bool
  mallocOk : Bool
  read : ReadIo
  reallocOk : Bool

def State.mapFile (st : State) (ok : Bool) : State :=
  { st with source := { st.source with file := ggufMap ok st.source.file } }

/-- The mapping exists and the offset passes the check made on it. -/
def mapCovers (file : Handle) (t : GgufTensor) : Bool :=
  file.mapped ∧ t.dataOffset ≤ sub64 file.index.fileSize file.index.dataBase

def storageLease (file : Handle) (tensor : Nat) (t : GgufTensor) : Lease :=
  ⟨tensor, .mapping ((file.index.dataBase + t.dataOffset) % 2 ^ 64), t.nbytes, .storage, 0, true⟩

def State.countLookup (st : State) : State :=
  { st with source := { st.source with
      stats := { st.source.stats with lookups := inc64 st.source.stats.lookups } } }

def State.countHit (st : State) : State :=
  { st with source := { st.source with
      stats := { st.source.stats with hits := inc64 st.source.stats.hits } } }

def State.countMiss (st : State) : State :=
  { st with source := { st.source with
      stats := { st.source.stats with misses := inc64 st.source.stats.misses } } }

/-- A lease on the entry at position `i`. Its ticket is the position, plus one. -/
def hit (st : State) (tensor i : Nat) (e : CacheEntry) : Lease × State :=
  let clock := inc64 st.source.clock
  (⟨tensor, .block e.data, e.bytes, e.tier, (i + 1) % 2 ^ 64, false⟩,
    { st with source := { st.source with
        entries := st.source.entries.modify i fun e =>
          { e with refs := inc64 e.refs, age := clock }
        clock := clock } })

/-- The statistics after a read of `n` bytes. -/
def State.account (st : State) (desired : Tier) (n budget : Nat) : State :=
  { st with source := { st.source with
      stats := { st.source.stats with
        bytesResident := residentBytes st.source.entries
        bytesBudget := budget
        bytesDevice := if desired = .device then (st.source.stats.bytesDevice + n) % 2 ^ 64
          else st.source.stats.bytesDevice
        bytesRead := (st.source.stats.bytesRead + n) % 2 ^ 64 } } }

/-- Room for one more entry; `none` when `realloc` fails. -/
def reserveEntry (reallocOk : Bool) (st : State) : Option State :=
  if st.source.entries.length = st.source.capacity then
    if reallocOk then
      some { st with source := { st.source with
        capacity := if st.source.capacity = 0 then 32 else st.source.capacity * 2 } }
    else none
  else some st

/-- Append the entry for a block. Its ticket is drawn from the counter. -/
def pushEntry (st : State) (tensor block n : Nat) (desired : Tier) : CacheEntry × State :=
  let clock := inc64 st.source.clock
  let ticket := inc64 st.source.nextTicket
  let e : CacheEntry := ⟨tensor, block, n, 1, clock, ticket, desired, true⟩
  (e, { st with source := { st.source with
    entries := st.source.entries ++ [e], clock := clock, nextTicket := ticket } })

def budgetFor (cfg : Config) (desired : Tier) : Nat :=
  if desired = .pinned then cfg.pinnedBudgetBytes else cfg.hostBudgetBytes

/-- The tensor was read into `block`: cache it, or hand it out as a transient lease. -/
def place (st : State) (tensor block n : Nat) (desired : Tier) (reallocOk : Bool) :
    Except Status Lease × State :=
  let budget := budgetFor st.source.cfg desired
  if budget ≠ 0 ∧ n ≤ budget then
    let st := evictFor st n
    match reserveEntry reallocOk st with
    | none => (.error .nomem, { st with memory := st.memory.free block })
    | some st =>
      let (e, st) := pushEntry st tensor block n desired
      (.ok ⟨tensor, .block e.data, e.bytes, e.tier, e.ticket, false⟩, st.account desired n budget)
  else
    (.ok ⟨tensor, .block block, n, desired, 0, false⟩, st.account desired n budget)

/-- The miss path from the allocation on. A block whose read fails is freed at once. -/
def load (st : State) (tensor : Nat) (t : GgufTensor) (desired : Tier) (o : Outcome) :
    Except Status Lease × State :=
  if o.mallocOk = false then (.error .nomem, st)
  else
    let read := ggufRead o.read st.source.file t 0 t.nbytes
    let st := { st with source := { st.source with file := read.2 } }
    match read.1 with
    | .error status => (.error status, st)
    | .ok bytes =>
      let block := st.memory.next
      let st := { st with memory := st.memory.alloc bytes }
      if desired = .device ∧ st.source.cfg.deviceBudgetBytes ≠ 0 ∧
          st.source.cfg.deviceBudgetBytes < (st.source.stats.bytesDevice + t.nbytes) % 2 ^ 64 then
        (.error .nomem, { st with memory := st.memory.free block })
      else place st tensor block t.nbytes desired o.reallocOk

def miss (st : State) (tensor : Nat) (t : GgufTensor) (desired : Tier) (o : Outcome) :
    Except Status Lease × State :=
  let st := st.countMiss
  if desired = .storage ∧ st.source.cfg.useMmap = true then
    let st := st.mapFile o.map2
    if mapCovers st.source.file t then (.ok (storageLease st.source.file tensor t), st)
    else (.error .io, st)
  else load st tensor t desired o

/-- The cache part of `vg_tensor_acquire`. -/
def lookup (st : State) (tensor : Nat) (t : GgufTensor) (desired : Tier) (o : Outcome) :
    Except Status Lease × State :=
  let st := st.countLookup
  match findEntry st.source.entries tensor desired with
  | none => miss st tensor t desired o
  | some i =>
    match st.source.entries[i]? with
    | none => miss st tensor t desired o
    | some e =>
      let (l, st) := hit st tensor i e
      (.ok l, st.countHit)

def acquire (st : State) (name : List UInt8) (desired : Tier) (o : Outcome) :
    Except Status Lease × State :=
  match findTensor st.source.file.index name with
  | none => (.error .invalid, st)
  | some (tensor, t) =>
    if desired = .storage ∧ st.source.cfg.useMmap = true then
      let st := st.countLookup.mapFile o.map1
      if mapCovers st.source.file t then
        (.ok (storageLease st.source.file tensor t), st.countHit)
      else lookup st tensor t desired o
    else lookup st tensor t desired o

/-- The entry that a release takes a lease to be on. -/
def ticketMatches (l : Lease) (e : CacheEntry) : Bool := e.ticket == l.ticket && e.tensor == l.tensor

def release (st : State) (l : Lease) : State :=
  if l.ticket ≠ 0 then
    match st.source.entries.findIdx? (ticketMatches l) with
    | none => st
    | some i =>
      { st with source := { st.source with
          entries := st.source.entries.modify i fun e => { e with refs := e.refs - 1 } } }
  else
    match l.data with
    | .block b => if l.mapped then st else { st with memory := st.memory.free b }
    | .mapping _ => st

/-- A source together with the leases its callers hold. -/
structure World extends State where
  leases : List Lease

inductive Call where
  | acquire (name : List UInt8) (desired : Tier) (o : Outcome)
  | release (i : Nat)

def World.opened (file : Handle) (cfg : Option Config) : World :=
  ⟨⟨Source.opened file cfg, .empty⟩, []⟩

/-- One call. Releasing a lease that is not held is releasing a zeroed one. -/
def World.call (w : World) : Call → World
  | .acquire name desired o =>
    match acquire w.toState name desired o with
    | (.ok l, st) => ⟨st, w.leases ++ [l]⟩
    | (.error _, st) => ⟨st, w.leases⟩
  | .release i =>
    match w.leases[i]? with
    | none => w
    | some l => ⟨release w.toState l, w.leases.eraseIdx i⟩

def World.step (w : World) (c : Call) : Option World := some (w.call c)

end VgEngine.TensorSource
