import VgEngine.Decode.Ffn
import VgEngine.Lib.Run
import VgEngine.TensorSource.Granted

/-! The expert cache: slices of stacked expert tensors, each slot with what keeps its bytes alive.
The clock has 64 bits in the source; here it never wraps. -/
namespace VgEngine.ExpertCache
open Gguf Model TensorSource

/-- `VG_EXPERT_GATE` and the others. -/
inductive Kind where
  | gate | up | down
deriving DecidableEq, Repr

def Kind.text : Kind → String
  | .gate => "ffn_gate"
  | .up => "ffn_up"
  | .down => "ffn_down"

/-- Where a pointer points: into what a lease is on, or into a block of the graph's own. -/
inductive Pointer where
  | leased (data : Data) (off : Nat)
  | own (block : Nat)
deriving DecidableEq, Repr

/-- `VG_ExpertSlot`. A slot that holds no lease has a copy of its own. -/
structure ExpertSlot where
  layer : Nat
  expert : Nat
  kind : Kind
  data : Pointer
  bytes : Nat
  ggmlType : Nat
  outDim : Nat
  inDim : Nat
  lastUse : Nat
  lease : Option Lease
  owned : Option Nat
deriving DecidableEq, Repr

def ExpertSlot.key (s : ExpertSlot) : Nat × Nat × Kind := (s.layer, s.expert, s.kind)

structure Cache where
  slots : List ExpertSlot
  cap : Nat
  clock : Nat
  hits : Nat
  misses : Nat
  evictions : Nat
deriving DecidableEq, Repr

/-- `cache_init`, the allocation of the slots succeeding. -/
def cacheInit (cap : Nat) : Cache := ⟨[], if cap < 4 then 4 else cap, 0, 0, 0, 0⟩

/-- `vg_model_graph_set_expert_cache`, on an empty cache. -/
def setExpertCache (capacity : Nat) : Except Status Cache :=
  if 4096 < capacity then .error .invalid else .ok (cacheInit (if capacity = 0 then 8 else capacity))

/-- What a call of `acquire_expert` hands back, and for which expert. -/
structure Slice where
  layer : Nat
  expert : Nat
  kind : Kind
  data : Pointer
  bytes : Nat
  ggmlType : Nat
deriving DecidableEq, Repr

def ExpertSlot.slice (s : ExpertSlot) : Slice :=
  ⟨s.layer, s.expert, s.kind, s.data, s.bytes, s.ggmlType⟩

/-- A graph, as far as the cache is concerned. `others` are the leases of everybody else on the
source. Two fields record the past: `contract`, that every call on the source so far has found the
entry that it is about, and `served`, the slices handed back, the last one first. -/
structure Graph where
  source : State
  others : List Lease
  cache : Cache
  heap : Memory (List UInt8)
  nEmbd : Nat
  nFf : Nat
  contract : Prop
  served : List Slice

def Graph.opened (file : Handle) (cfg : Option Config) (cache : Cache) (nEmbd nFf : Nat) : Graph where
  source := ⟨Source.opened file cfg, .empty⟩
  others := []
  cache := cache
  heap := .empty
  nEmbd := nEmbd
  nFf := nFf
  contract := True
  served := []

/-- How the library calls of one `acquire_expert` turn out. -/
structure ExpertIo where
  acquire : Outcome
  mallocOk : Bool

namespace Graph

variable (g : Graph)

/-- All leases on the source. -/
def leases : List Lease := g.cache.slots.filterMap ExpertSlot.lease ++ g.others

/-- The rows and columns of an expert's matrix. -/
def dims : Kind → Nat × Nat
  | .gate => (g.nFf, g.nEmbd)
  | .up => (g.nFf, g.nEmbd)
  | .down => (g.nEmbd, g.nFf)

/-- `n` bytes at a pointer; what lies behind the end of a block or of the file is left out. -/
def read (p : Pointer) (n : Nat) : Option (List UInt8) :=
  match p with
  | .leased (.block b) off => (g.source.memory.cells b).map fun bytes => slice bytes off n
  | .leased (.mapping o) off =>
    if g.source.source.file.mapped then some (slice g.source.source.file.file.bytes (o + off) n)
    else none
  | .own b => (g.heap.cells b).map fun bytes => slice bytes 0 n

/-- `release_weight`, of a lease that is held beside `rest`. -/
def releaseWeight (l : Lease) (rest : List Lease) : Graph :=
  { g with
    source := release g.source l
    contract := g.contract ∧ FindsEntry ⟨g.source, l :: rest⟩ (.release 0) }

/-- `acquire_weight`. -/
def acquireWeight (name : List UInt8) (tier : Tier) (o : Outcome) : Except Status Lease × Graph :=
  let r := acquire g.source name tier o
  (r.1, { g with
    source := r.2
    contract := g.contract ∧ FindsEntry ⟨g.source, g.leases⟩ (.acquire name tier o) })

/-- The position of the oldest slot of those from `i` on, with the best one so far. -/
def oldestFrom : Nat → Nat → Nat → List ExpertSlot → Nat
  | _, best, _, [] => best
  | i, best, use, s :: slots =>
    if s.lastUse < use then oldestFrom (i + 1) i s.lastUse slots
    else oldestFrom (i + 1) best use slots

def oldest (slots : List ExpertSlot) : Nat :=
  match slots with
  | [] => 0
  | s :: slots => oldestFrom 1 0 s.lastUse slots

def dropLease (lease : Option Lease) (rest : List Lease) : Graph :=
  match lease with
  | none => g
  | some l => g.releaseWeight l rest

def freeOwned (heap : Memory (List UInt8)) : Option Nat → Memory (List UInt8)
  | none => heap
  | some b => heap.free b

/-- `slot_drop`, with the leases that are held beside that of the slot. -/
def slotDrop (s : ExpertSlot) (rest : List Lease) : Graph :=
  { g.dropLease s.lease rest with heap := freeOwned g.heap s.owned }

/-- `cache_insert`. -/
def cacheInsert (value : ExpertSlot) : Graph :=
  let value := { value with lastUse := g.cache.clock + 1 }
  if g.cache.slots.length < g.cache.cap then
    { g with cache := { g.cache with
        slots := g.cache.slots ++ [value]
        clock := g.cache.clock + 1 } }
  else
    let i := oldest g.cache.slots
    match g.cache.slots[i]? with
    | none => g
    | some s =>
      let rest := value.lease.toList ++ (g.cache.slots.eraseIdx i).filterMap ExpertSlot.lease ++ g.others
      let g := g.slotDrop s rest
      { g with cache := { g.cache with
          slots := g.cache.slots.set i value
          clock := g.cache.clock + 1
          evictions := g.cache.evictions + 1 } }

/-- The name of a stacked expert tensor. -/
def expertName (layer : Nat) (kind : Kind) : List UInt8 := blk layer (kind.text ++ "_exps.weight")

/-- The end of the slice of an expert, in the arithmetic of the range check. -/
def sliceEnd (expert stride : Nat) : Nat := (expert + 1) % 2 ^ 32 * stride % 2 ^ 64

/-- The number of experts that a tensor stacks. -/
def stacked (t : GgufTensor) : Nat := if 3 ≤ t.nDims then dim t 2 else 1

/-- The slot for an expert of the tensor `t`. -/
def newSlot (layer : Nat) (kind : Kind) (expert : Nat) (t : GgufTensor) (data : Pointer)
    (lease : Option Lease) (owned : Option Nat) : ExpertSlot :=
  ⟨layer, expert, kind, data, Decode.expertStride t (g.dims kind).1 (g.dims kind).2, t.ggmlType,
    (g.dims kind).1, (g.dims kind).2, 0, lease, owned⟩

/-- The end of a miss. -/
def insertSlot (s : ExpertSlot) : Except Status Slice × Graph :=
  (.ok s.slice,
    { g with cache := { g.cache with misses := g.cache.misses + 1 } }.cacheInsert s)

/-- `acquire_expert` behind the lease on the tensor `t`. -/
def keepSlice (layer : Nat) (kind : Kind) (expert : Nat) (l : Lease) (t : GgufTensor)
    (mallocOk : Bool) : Except Status Slice × Graph :=
  let stride := Decode.expertStride t (g.dims kind).1 (g.dims kind).2
  let off := expert * stride % 2 ^ 64
  if stacked t ≤ expert ∨ stride = 0 ∨ l.size < sliceEnd expert stride then
    (.error .format, g.releaseWeight l g.leases)
  else if l.ticket ≠ 0 ∨ l.mapped then
    g.insertSlot (g.newSlot layer kind expert t (.leased l.data off) (some l) none)
  else if mallocOk = false then (.error .nomem, g.releaseWeight l g.leases)
  else
    let copy := (g.read (.leased l.data off) stride).getD []
    let slot := g.newSlot layer kind expert t (.own g.heap.next) none (some g.heap.next)
    ({ g with heap := g.heap.alloc copy }.releaseWeight l g.leases).insertSlot slot

/-- The miss path of `acquire_expert`. -/
def missExpert (layer : Nat) (kind : Kind) (expert : Nat) (io : ExpertIo) :
    Except Status Slice × Graph :=
  match g.acquireWeight (expertName layer kind) .storage io.acquire with
  | (.error status, g) => (.error status, g)
  | (.ok l, g) =>
    g.keepSlice layer kind expert l ((g.source.source.file.index.tensorList[l.tensor]?).getD .zero)
      io.mallocOk

/-- `cache_find` -/
def cacheFind (layer expert : Nat) (kind : Kind) : Option Nat :=
  g.cache.slots.findIdx? fun s => s.key == (layer, expert, kind)

/-- A use of the slot at a position. -/
def touch (i : Nat) (s : ExpertSlot) : Graph :=
  { g with cache := { g.cache with
      slots := g.cache.slots.set i { s with lastUse := g.cache.clock + 1 }
      clock := g.cache.clock + 1
      hits := g.cache.hits + 1 } }

/-- `acquire_expert` -/
def acquireExpert (layer : Nat) (kind : Kind) (expert : Nat) (io : ExpertIo) :
    Except Status Slice × Graph :=
  match (g.cacheFind layer expert kind).bind fun i => (g.cache.slots[i]?).map fun s => (i, s) with
  | none => g.missExpert layer kind expert io
  | some (i, s) =>
    if s.outDim = (g.dims kind).1 ∧ s.inDim = (g.dims kind).2 then
      (.ok s.slice, g.touch i s)
    else g.missExpert layer kind expert io

end Graph

/-- A call of `acquire_expert`, or a call of somebody else on the source. -/
inductive Action where
  | expert (layer : Nat) (kind : Kind) (expert : Nat) (io : ExpertIo)
  | acquire (name : List UInt8) (tier : Tier) (o : Outcome)
  | release (i : Nat)

def Graph.record (r : Except Status Slice × Graph) : Graph :=
  match r with
  | (.error _, g) => g
  | (.ok slice, g) => { g with served := slice :: g.served }

def Graph.call (g : Graph) : Action → Graph
  | .expert layer kind expert io => Graph.record (g.acquireExpert layer kind expert io)
  | .acquire name tier o =>
    match g.acquireWeight name tier o with
    | (.error _, g) => g
    | (.ok l, g) => { g with others := g.others ++ [l] }
  | .release i =>
    match g.others[i]? with
    | none => g
    | some l =>
      { g with others := g.others.eraseIdx i }.releaseWeight l
        (g.cache.slots.filterMap ExpertSlot.lease ++ g.others.eraseIdx i)

def Graph.step (g : Graph) (a : Action) : Option Graph := some (g.call a)

end VgEngine.ExpertCache
