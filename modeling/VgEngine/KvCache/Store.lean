import VgEngine.Lib.Memory
import VgEngine.Lib.RadixTree
import VgEngine.Status

/-! The paged KV store and its sequences. Pages live in one array: evicting a page
moves those above it down, and growing the array moves all of them. An operation that
reaches a page through a pointer into an earlier array is undefined, which is `none`. -/
namespace VgEngine.KvCache

/-- A pointer into the page array. Each `realloc` starts a new generation of the array. -/
structure PagePtr where
  gen : Nat
  index : Nat
deriving DecidableEq, Repr

/-- `VG_Page`. Without data, `data` is the null pointer. -/
structure Page where
  data : Option Nat
  bytes : Nat
  refs : Nat
  age : Nat
  tier : Tier
  spilled : Bool
  spillId : Nat
deriving DecidableEq, Repr

def Page.zero : Page := ⟨none, 0, 0, 0, .storage, false, 0⟩

/-- `spillDir` tells whether a spill directory is configured. -/
structure KvConfig where
  pageTokens : Nat
  nLayers : Nat
  kvHeads : Nat
  headDim : Nat
  elementBytes : Nat
  hostBudgetBytes : Nat
  deviceBudgetBytes : Nat
  maxPages : Nat
  spillDir : Bool
deriving DecidableEq, Repr

structure KvStats where
  pageAllocs : Nat
  pageHits : Nat
  pageEvictions : Nat
  hostBytes : Nat
  deviceBytes : Nat
  prefixLookups : Nat
  prefixHits : Nat
  prefixTokensReused : Nat
deriving DecidableEq, Repr

/-- Cells at and above `pageCount` keep what they last held. -/
structure KvStore where
  cfg : KvConfig
  gen : Nat
  cells : Nat → Page
  pageCount : Nat
  pageCapacity : Nat
  clock : Nat
  nextSpillId : Nat
  stats : KvStats

/-- A page slot of a sequence. The program stores the pointer; `block` remembers the
data block of the page that was allocated for the slot. -/
structure Slot where
  ptr : PagePtr
  block : Nat
deriving DecidableEq, Repr

/-- `VG_KVSequence`; its length is that of `tokens`. -/
structure KvSequence where
  tokens : List Nat
  capacity : Nat
  pages : List Slot
  pageCapacity : Nat
deriving DecidableEq, Repr

/-- What a radix node carries. -/
structure NodeData where
  semanticFingerprint : Nat
  tainted : Bool
  snapshot : Option Nat
deriving DecidableEq, Repr

def NodeData.empty : NodeData := ⟨0, false, none⟩

abbrev RadixNode := RadixTree.Tree Nat NodeData

/-- A store with its sequences, named by handles, its radix trees, the heap and the
spill files. `ticks` counts the fallible requests made of the environment so far. -/
structure World where
  store : KvStore
  heap : Memory (List UInt8)
  files : Nat × Nat → Option (List UInt8)
  seqs : List (Option KvSequence)
  radixes : List RadixNode
  ticks : Nat

def inc64 (n : Nat) : Nat := (n + 1) % 2 ^ 64

def pageBytes (cfg : KvConfig) : Nat :=
  cfg.nLayers * cfg.kvHeads * cfg.headDim * cfg.elementBytes * cfg.pageTokens % 2 ^ 64

/-- Size of the part of a page that belongs to one layer. -/
def layerBytes (cfg : KvConfig) : Nat :=
  cfg.kvHeads * cfg.headDim * cfg.elementBytes * cfg.pageTokens % 2 ^ 64

/-- Where the part of a layer begins in a page. -/
def layerOffset (cfg : KvConfig) (layer : Nat) : Nat := layer * layerBytes cfg % 2 ^ 64

def KvStore.opened (cfg : KvConfig) : KvStore :=
  { cfg := { cfg with maxPages := if cfg.maxPages = 0 then 16384 else cfg.maxPages }
    gen := 0
    cells := fun _ => .zero
    pageCount := 0
    pageCapacity := 0
    clock := 0
    nextSpillId := 0
    stats := ⟨0, 0, 0, 0, 0, 0, 0, 0⟩ }

/-- `vg_kv_open` -/
def kvOpen (cfg : KvConfig) : Except Status KvStore :=
  if cfg.pageTokens = 0 ∨ cfg.nLayers = 0 ∨ cfg.kvHeads = 0 ∨ cfg.headDim = 0 ∨
      cfg.elementBytes = 0 then .error .invalid
  else if pageBytes cfg = 0 then .error .range
  else .ok (.opened cfg)

def World.opened (store : KvStore) : World := ⟨store, .empty, fun _ => none, [], [], 0⟩

namespace World

def withStore (w : World) (store : KvStore) : World := { w with store := store }

/-- The live sequence behind a handle. -/
def seq (w : World) (h : Nat) : Option KvSequence := w.seqs[h]?.join

def setSeq (w : World) (h : Nat) (q : Option KvSequence) : World :=
  { w with seqs := w.seqs.set h q }

def deref (w : World) (p : PagePtr) : Option Page :=
  if p.gen = w.store.gen then some (w.store.cells p.index) else none

def setCell (w : World) (i : Nat) (x : Page) : World :=
  w.withStore { w.store with cells := fun j => if j = i then x else w.store.cells j }

/-- `free`; freeing a block that is not live is undefined. -/
def free (w : World) : Option Nat → Option World
  | none => some w
  | some b => if (w.heap.cells b).isSome then some { w with heap := w.heap.free b } else none

variable (env : Nat → Bool)

/-- Ask the environment: an allocation, an `fopen`, or a complete transfer. -/
def ask (w : World) : Bool × World := (env w.ticks, { w with ticks := w.ticks + 1 })

/-- `spill_page` of the page at position `i`. -/
def spillPage (w : World) (i : Nat) : Option World :=
  let x := w.store.cells i
  match x.data with
  | none => some w
  | some b =>
    if w.store.cfg.spillDir = false ∨ x.spilled = true then some w
    else
      let (opened, w) := w.ask env
      if opened = false then some w
      else
        let (written, w) := w.ask env
        if written = false then some w
        else do
          let contents ← w.heap.cells b
          let id := w.store.nextSpillId
          let w := { w with files := fun k => if k = (id, x.age) then some contents else w.files k }
          let w := w.setCell i { x with data := none, spilled := true, spillId := id }
          (w.withStore { w.store with nextSpillId := inc64 id }).free (some b)

/-- `fault_page` of the page at position `i`; the flag is its result. -/
def faultPage (w : World) (i : Nat) : Bool × World :=
  let x := w.store.cells i
  if x.spilled = false then (true, w)
  else
    let (opened, w) := w.ask env
    match w.files (x.spillId, x.age) with
    | none => (false, w)
    | some contents =>
      if opened = false then (false, w)
      else
        let (allocated, w) := w.ask env
        if allocated = false then (false, w)
        else
          let (transferred, w) := w.ask env
          if transferred = false ∨ contents.length ≠ x.bytes then
            (false, w.setCell i { x with data := none })
          else
            let b := w.heap.next
            let w := { w with heap := w.heap.alloc contents
                              files := fun k => if k = (x.spillId, x.age) then none else w.files k }
            (true, w.setCell i { x with data := some b, spilled := false })

/-- The search for the oldest unreferenced page. -/
def victimFrom (cells : Nat → Page) : Nat → Nat → Option Nat → Nat → Option Nat
  | 0, _, victim, _ => victim
  | n + 1, i, victim, age =>
    if (cells i).refs = 0 ∧ (cells i).age < age then
      victimFrom cells n (i + 1) (some i) (cells i).age
    else victimFrom cells n (i + 1) victim age

def victim (s : KvStore) : Option Nat := victimFrom s.cells s.pageCount 0 none (2 ^ 64 - 1)

/-- The `memmove` over the evicted page. -/
def closeGap (s : KvStore) (v : Nat) : KvStore :=
  { s with
    cells := fun i => if v ≤ i ∧ i + 1 < s.pageCount then s.cells (i + 1) else s.cells i
    pageCount := s.pageCount - 1
    stats := { s.stats with pageEvictions := inc64 s.stats.pageEvictions } }

/-- The statistics after page `x` left the host. -/
def uncount (s : KvStore) (x : Page) : KvStore :=
  { s with stats := { s.stats with
    hostBytes := sub64 s.stats.hostBytes x.bytes
    deviceBytes := if x.tier = .device then sub64 s.stats.deviceBytes x.bytes
      else s.stats.deviceBytes } }

/-- One pass of `evict_pages`, for the victim at position `v`. -/
def evictPage (w : World) (v : Nat) : Option World := do
  let x := w.store.cells v
  let w := w.withStore (uncount w.store x)
  let w ← if w.store.cfg.spillDir then w.spillPage env v else w.free x.data
  some (w.withStore (closeGap w.store v))

/-- The loop of `evict_pages`. Each pass removes a page. -/
def evictLoop : Nat → World → Option World
  | 0, w => some w
  | n + 1, w =>
    if w.store.cfg.hostBudgetBytes < w.store.stats.hostBytes then
      match victim w.store with
      | none => some w
      | some v => (w.evictPage env v).bind (evictLoop n)
    else some w

def evictPages (w : World) : Option World :=
  if w.store.cfg.hostBudgetBytes = 0 then some w else w.evictLoop env w.store.pageCount

/-- Room for one more page, in an array of a new generation when the old one is full. -/
def growPages (w : World) : Bool × World :=
  if w.store.pageCount = w.store.pageCapacity then
    let (ok, w) := w.ask env
    if ok then
      (true, w.withStore { w.store with
        gen := w.store.gen + 1
        pageCapacity := if w.store.pageCapacity = 0 then 64 else w.store.pageCapacity * 2 })
    else (false, w)
  else (true, w)

/-- Append a page with its data block, and the slot that refers to it. -/
def pushPage (w : World) (block : Nat) (tier : Tier) : Slot × World :=
  let s := w.store
  let bytes := pageBytes s.cfg
  let x : Page := ⟨some block, bytes, 1, inc64 s.clock, tier, false, 0⟩
  let stats := { s.stats with
    pageAllocs := inc64 s.stats.pageAllocs
    hostBytes := (s.stats.hostBytes + bytes) % 2 ^ 64
    deviceBytes := if tier = .device then (s.stats.deviceBytes + bytes) % 2 ^ 64
      else s.stats.deviceBytes }
  (⟨⟨s.gen, s.pageCount⟩, block⟩, w.withStore { s with
    cells := fun i => if i = s.pageCount then x else s.cells i
    pageCount := s.pageCount + 1
    clock := inc64 s.clock
    stats := stats })

/-- `new_page`: no slot when it returns a null pointer. -/
def newPage (w : World) (tier : Tier) : Option (Option Slot × World) :=
  let bytes := pageBytes w.store.cfg
  if bytes = 0 then some (none, w)
  else do
    let w ← w.evictPages env
    if tier = .device ∧ w.store.cfg.deviceBudgetBytes ≠ 0 ∧
        w.store.cfg.deviceBudgetBytes < (w.store.stats.deviceBytes + bytes) % 2 ^ 64 then
      some (none, w)
    else
      let (allocated, w) := w.ask env
      if allocated = false then some (none, w)
      else
        let block := w.heap.next
        let w := { w with heap := w.heap.alloc (List.replicate bytes 0) }
        let (grown, w) := w.growPages env
        if grown = false then (w.free (some block)).map fun w => (none, w)
        else
          let (slot, w) := w.pushPage block tier
          some (some slot, w)

/-- `page_retain`, in 32-bit arithmetic. -/
def pageRetain (w : World) (p : PagePtr) : Option World :=
  (w.deref p).map fun x => w.setCell p.index { x with refs := (x.refs + 1) % 2 ^ 32 }

def pageDrop (w : World) (p : PagePtr) : Option World :=
  (w.deref p).map fun x => w.setCell p.index { x with refs := x.refs - 1 }

def retainAll : List Slot → World → Option World
  | [], w => some w
  | x :: xs, w => (w.pageRetain x.ptr).bind (retainAll xs)

def dropAll : List Slot → World → Option World
  | [], w => some w
  | x :: xs, w => (w.pageDrop x.ptr).bind (dropAll xs)

/-- The doubling of a capacity; `none` is the range error. -/
def growCapacity : Nat → Nat → Nat → Option Nat
  | 0, _, _ => none
  | fuel + 1, n, cap =>
    if n ≤ cap then some cap
    else if sizeMax / 2 < cap then none
    else growCapacity fuel n (cap * 2)

/-- `seq_reserve` and `pages_reserve`: the capacity that holds `n` items. -/
def reserve (w : World) (n cap first : Nat) : Except Status Nat × World :=
  if n ≤ cap then (.ok cap, w)
  else
    match growCapacity 65 n (if cap = 0 then first else cap * 2) with
    | none => (.error .range, w)
    | some cap =>
      let (ok, w) := w.ask env
      (if ok then .ok cap else .error .nomem, w)

def KvSequence.init : KvSequence := ⟨[], 0, [], 0⟩

/-- A new handle for a sequence. -/
def addSeq (w : World) (q : KvSequence) : Nat × World :=
  (w.seqs.length, { w with seqs := w.seqs ++ [some q] })

def sequenceInit (w : World) : Except Status Nat × World :=
  let (ok, w) := w.ask env
  if ok then
    let (h, w) := w.addSeq KvSequence.init
    (.ok h, w)
  else (.error .nomem, w)

/-- `vg_kv_sequence_close` of a live sequence. Nothing can reach it from here on. -/
def sequenceClose (w : World) (h : Nat) : Option World := do
  let q ← w.seq h
  dropAll q.pages (w.setSeq h none)

/-- The part of append before a page is opened. The flag tells whether one is needed. -/
def prepareAppend (w : World) (h : Nat) (q : KvSequence) :
    Except Status (KvSequence × Bool) × World :=
  match w.reserve env (q.tokens.length + 1) q.capacity 256 with
  | (.error status, w) => (.error status, w)
  | (.ok cap, w) =>
    let q := { q with capacity := cap }
    let w := w.setSeq h (some q)
    let pi := q.tokens.length / w.store.cfg.pageTokens
    if pi < q.pages.length then (.ok (q, false), w)
    else if w.store.cfg.maxPages ≤ q.pages.length then (.error .range, w)
    else
      match w.reserve env (pi + 1) q.pageCapacity 16 with
      | (.error status, w) => (.error status, w)
      | (.ok cap, w) =>
        let q := { q with pageCapacity := cap }
        (.ok (q, true), w.setSeq h (some q))

def sequenceAppend (w : World) (h token : Nat) : Option (Status × World) := do
  let q ← w.seq h
  match w.prepareAppend env h q with
  | (.error status, w) => some (status, w)
  | (.ok (q, false), w) =>
    some (.ok, w.setSeq h (some { q with tokens := q.tokens ++ [token] }))
  | (.ok (q, true), w) => do
    let (slot, w) ← w.newPage env .host
    match slot with
    | none => some (.nomem, w)
    | some slot => some (.ok, w.setSeq h (some { q with
        pages := q.pages ++ [slot], tokens := q.tokens ++ [token] }))

/-- Pages that hold `n` tokens. -/
def pagesFor (cfg : KvConfig) (n : Nat) : Nat := (n + cfg.pageTokens - 1) / cfg.pageTokens

/-- `vg_kv_sequence_fork`. The new sequence gets its handle when it is complete; on a
failure it is closed before anyone has seen it. -/
def sequenceFork (w : World) (src count : Nat) : Option (Except Status Nat × World) := do
  let q ← w.seq src
  if q.tokens.length < count then some (.error .invalid, w)
  else
    let (ok, w) := w.ask env
    if ok = false then some (.error .nomem, w)
    else
      match w.reserve env count 0 256 with
      | (.error status, w) => some (.error status, w)
      | (.ok cap, w) =>
        let np := pagesFor w.store.cfg count
        match w.reserve env np 0 16 with
        | (.error status, w) => some (.error status, w)
        | (.ok pageCap, w) =>
          if q.pages.length < np then none
          else do
            let w ← retainAll (q.pages.take np) w
            let (h, w) := w.addSeq ⟨q.tokens.take count, cap, q.pages.take np, pageCap⟩
            some (.ok h, w)

/-- `vg_kv_page_acquire`: the block, the offset of the layer in it, and its size. -/
def pageAcquire (w : World) (h layer token : Nat) (desired : Tier) :
    Option (Except Status (Option Nat × Nat × Nat) × World) := do
  let q ← w.seq h
  if w.store.cfg.nLayers ≤ layer ∨ q.tokens.length ≤ token then some (.error .invalid, w)
  else do
    let slot ← q.pages[token / w.store.cfg.pageTokens]?
    let _ ← w.deref slot.ptr
    let (ok, w) := w.faultPage env slot.ptr.index
    if ok = false then some (.error .io, w)
    else
      let x := w.store.cells slot.ptr.index
      let clock := inc64 w.store.clock
      let w := w.setCell slot.ptr.index { x with age := clock, tier := desired }
      let w := w.withStore { w.store with
        clock := clock
        stats := { w.store.stats with pageHits := inc64 w.store.stats.pageHits } }
      some (.ok (x.data, layerOffset w.store.cfg layer, layerBytes w.store.cfg), w)

end World

end VgEngine.KvCache
