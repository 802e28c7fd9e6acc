import VgEngine.Lib.Lru
import VgEngine.Lib.Memory
import VgEngine.Status
import Mathlib.Data.UInt

/-! The device-local weight cache of the Vulkan backend, with the buffers it allocates and
the scratch pools that live beside it. -/
namespace VgEngine.Vulkan

structure Buffer where
  bytes : UInt64
  mapped : Bool

/-- A cached buffer. The clock behind `stamp` has 64 bits in the source; here it never wraps. -/
structure CacheItem where
  key : Nat
  tag : Nat
  buf : Nat
  bytes : UInt64
  stamp : Nat
  hits : Nat
deriving DecidableEq

/-- Host-visible scratch and device-local scratch. -/
inductive Pool where
  | scratch | devscratch
deriving DecidableEq

structure VK where
  memoryBudget : UInt64
  memoryAllocated : UInt64
  cache : List CacheItem
  cacheTotal : UInt64
  cacheBudget : UInt64
  cacheClock : Nat
  pools : Pool → Nat → Option (UInt64 × Nat)
  buffers : Memory Buffer
  calls : Nat

/-- A device just opened. -/
def VK.opened (memoryBudget cacheBudget : UInt64) : VK :=
  ⟨memoryBudget, 0, [], 0, cacheBudget, 0, fun _ _ => none, Memory.empty, 0⟩

/-- What the device makes of an allocation: no buffer object at all, a buffer object whose
memory fails, or a buffer in host or in device memory. -/
inductive Allocation where
  | refused
  | failed (status : Status)
  | host
  | device

/-- The answers of the device, by the number of the call; an allocation may ask for device
memory. -/
structure Driver where
  allocate : Nat → Bool → Allocation
  submit : Nat → Status

/-- A device that has memory for everything. -/
def roomyDriver : Driver :=
  ⟨fun _ deviceLocal => if deviceLocal then .device else .host, fun _ => .ok⟩

/-- `destroy_buffer`. -/
def VK.destroyBuffer (v : VK) (b : Nat) : VK :=
  match v.buffers.cells b with
  | none => v
  | some x => { v with
      memoryAllocated := v.memoryAllocated - x.bytes
      buffers := v.buffers.free b }

section Model

variable (driver : Driver)

/-- `make_buffer_ex`. Where the memory fails, `destroy_buffer` takes off bytes that were
never added. -/
def VK.makeBufferEx (v : VK) (bytes : UInt64) (deviceLocal : Bool) :
    Except Status Nat × VK :=
  if bytes = 0 then (.error .invalid, v)
  else if v.memoryBudget < v.memoryAllocated + bytes then (.error .nomem, v)
  else
    let made := fun mapped => (.ok v.buffers.next, { v with
      memoryAllocated := v.memoryAllocated + bytes
      buffers := v.buffers.alloc ⟨bytes, mapped⟩
      calls := v.calls + 1 })
    match driver.allocate v.calls deviceLocal with
    | .refused => (.error .nomem, { v with calls := v.calls + 1 })
    | .failed status => (.error status, { v with
        memoryAllocated := v.memoryAllocated - bytes
        calls := v.calls + 1 })
    | .host => made true
    | .device => made false

def VK.setPool (v : VK) (pool : Pool) (slot : Nat) (entry : Option (UInt64 × Nat)) : VK :=
  { v with pools := fun p s => if p = pool ∧ s = slot then entry else v.pools p s }

/-- A new buffer for a slot of a pool. -/
def VK.refill (v : VK) (pool : Pool) (slot : Nat) (bytes : UInt64) : Except Status Nat × VK :=
  match v.makeBufferEx driver bytes (pool = .devscratch) with
  | (.error status, v) => (.error status, v.setPool pool slot none)
  | (.ok b, v) => (.ok b, v.setPool pool slot (some (bytes, b)))

/-- A buffer of at least `bytes` from a slot of a pool. -/
def VK.acquirePool (v : VK) (pool : Pool) (slot : Nat) (bytes : UInt64) : Except Status Nat × VK :=
  if bytes = 0 then (.error .invalid, v)
  else match v.pools pool slot with
    | none => v.refill driver pool slot bytes
    | some (size, b) =>
      if bytes ≤ size then (.ok b, v)
      else (v.destroyBuffer b).refill driver pool slot bytes

/-- `vg_vk_scratch_acquire`. -/
def VK.scratchAcquire (v : VK) (slot : Nat) (bytes : UInt64) : Except Status Nat × VK :=
  v.acquirePool driver .scratch slot bytes

/-- `devbuf_acquire`, `vg_vk_dev_scratch_acquire`. -/
def VK.devbufAcquire (v : VK) (slot : Nat) (bytes : UInt64) : Except Status Nat × VK :=
  v.acquirePool driver .devscratch slot bytes

/-- `upload_buffer`. There is no outcome where the staging buffer is not mapped, since the
copy into it goes through a null pointer. -/
def VK.uploadBuffer (v : VK) (dst : Nat) (bytes : UInt64) : Option (Status × VK) := do
  let x ← v.buffers.cells dst
  if x.mapped then some (.ok, v)
  else match v.scratchAcquire driver 900 bytes with
    | (.error status, v) => some (status, v)
    | (.ok staging, v) =>
      let y ← v.buffers.cells staging
      if y.mapped then some (driver.submit v.calls, { v with calls := v.calls + 1 }) else none

/-- The first entry of a key and tag, with one hit more and a new stamp. -/
def touch (key tag stamp : Nat) : List CacheItem → Option (Nat × List CacheItem)
  | [] => none
  | e :: es =>
    if e.key = key ∧ e.tag = tag then
      some (e.buf, { e with hits := e.hits + 1, stamp := stamp } :: es)
    else (touch key tag stamp es).map fun r => (r.1, e :: r.2)

/-- A cache hit. -/
def VK.find (v : VK) (key tag : Nat) : Option (Nat × VK) :=
  (touch key tag (v.cacheClock + 1) v.cache).map fun r =>
    (r.1, { v with cache := r.2, cacheClock := v.cacheClock + 1 })

/-- `vg_vk_cache_get`; key `0` is the null pointer. -/
def VK.cacheGet (v : VK) (key tag : Nat) : Except Status Nat × VK :=
  if key = 0 then (.error .invalid, v)
  else match v.find key tag with
    | some (b, v) => (.ok b, v)
    | none => (.error .unsupported, v)

/-- The bytes the cache may hold, clamped to what remains of the device's memory. -/
def VK.softLimit (v : VK) : UInt64 :=
  let soft := if v.cacheBudget ≠ 0 then v.cacheBudget else v.memoryBudget * 85 / 100
  let noncache := if v.cacheTotal < v.memoryAllocated then v.memoryAllocated - v.cacheTotal else 0
  let headroom := 192 * 1024 * 1024
  let room := if noncache + headroom < v.memoryBudget then
    v.memoryBudget - noncache - headroom else 0
  if room < soft then room else soft

def VK.evictItem (v : VK) (e : CacheItem) : VK :=
  let v := { v with cacheTotal := v.cacheTotal - e.bytes }
  let v := v.destroyBuffer e.buf
  { v with cache := v.cache.erase e }

/-- The eviction loop, with a bound on the number of its rounds. -/
def VK.evictLoop (bytes soft : UInt64) : Nat → VK → VK
  | 0, v => v
  | n + 1, v =>
    if v.cacheTotal + bytes ≤ soft then v
    else match Lru.victim CacheItem.stamp v.cacheClock v.cache with
      | none => v
      | some e => VK.evictLoop bytes soft n (v.evictItem e)

/-- `vg_vk_cache_acquire` once no entry is found: make room, allocate, upload. -/
def VK.insert (v : VK) (key tag : Nat) (bytes : UInt64) : Option (Except Status Nat × VK) :=
  let v := VK.evictLoop bytes v.softLimit v.cache.length v
  match v.makeBufferEx driver bytes true with
  | (.error status, v) => some (.error status, v)
  | (.ok b, v) => do
    let (status, v) ← v.uploadBuffer driver b bytes
    if status ≠ .ok then some (.error status, v.destroyBuffer b)
    else some (.ok b, { v with
      cache := v.cache ++ [⟨key, tag, b, bytes, v.cacheClock + 1, 1⟩]
      cacheTotal := v.cacheTotal + bytes
      cacheClock := v.cacheClock + 1 })

/-- `vg_vk_cache_acquire`; `data` says whether the host pointer is set. -/
def VK.cacheAcquire (v : VK) (key tag : Nat) (data : Bool) (bytes : UInt64) :
    Option (Except Status Nat × VK) :=
  if key = 0 ∨ data = false ∨ bytes = 0 then some (.error .invalid, v)
  else match v.find key tag with
    | some (b, v) => some (.ok b, v)
    | none => v.insert driver key tag bytes

end Model

end VgEngine.Vulkan
