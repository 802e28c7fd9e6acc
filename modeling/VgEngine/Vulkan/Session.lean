import VgEngine.Lib.Holdings
import VgEngine.Vulkan.Kept

/-! The device memory of a session, from the opening of the device to `vg_vk_close`: who holds which
buffer, and what the counter says. -/
namespace VgEngine.Vulkan

section Model

variable (driver : Driver)

/-- `vg_vk_buffer_upload`. The copy into a buffer that is not mapped goes through a null pointer. -/
def VK.bufferUpload (v : VK) (bytes : UInt64) : Option (Except Status Nat × VK) :=
  match v.makeBufferEx driver bytes false with
  | (.error status, v) => some (.error status, v)
  | (.ok b, v) => do
    let x ← v.buffers.cells b
    if x.mapped then some (.ok b, v) else none

/-- `vg_vk_rmsnorm`, with the status of `alloc_desc_set`; its output buffer lives for the call. -/
def VK.rmsnorm (v : VK) (dim : UInt32) (desc : Status) : Option (Status × VK) :=
  if dim = 0 then some (.invalid, v)
  else match v.makeBufferEx driver (dim.toUInt64 * 4) false with
    | (.error status, v) => some (status, v)
    | (.ok ob, v) =>
      if desc ≠ .ok then some (desc, v.destroyBuffer ob)
      else do
        let x ← v.buffers.cells ob
        let status := driver.submit v.calls
        if status = .ok ∧ x.mapped = false then none
        else some (status, { v with calls := v.calls + 1 }.destroyBuffer ob)

/-- The buffer of a slot. -/
def VK.slotBuffer (v : VK) (pool : Pool) (slot : Nat) : Option Nat := (v.pools pool slot).map Prod.snd

/-- What `vg_vk_close` does to the buffers, where the host-visible scratch has at most `slots`
slots. -/
def VK.close (v : VK) (slots : Nat) : VK :=
  let v := { (v.cache.map CacheItem.buf).foldl VK.destroyBuffer v with cache := [] }
  let v := ((List.range slots).filterMap (v.slotBuffer .scratch)).foldl VK.destroyBuffer v
  { v with pools := fun pool slot => if pool = .scratch then none else v.pools pool slot }

/-- A device, the uploaded buffers that its callers hold, and a bound on the slots of the pools; a
slot that a pool does not have yet holds no buffer. -/
structure Session where
  vk : VK
  uploads : List Nat
  slots : Nat

def Session.opened (memoryBudget cacheBudget : UInt64) : Session :=
  ⟨VK.opened memoryBudget cacheBudget, [], 0⟩

inductive Op where
  | bufferUpload (bytes : UInt64)
  | bufferRelease (i : Nat)
  | cacheGet (key tag : Nat)
  | cacheAcquire (key tag : Nat) (data : Bool) (bytes : UInt64)
  | scratchAcquire (slot : Nat) (bytes : UInt64)
  | devScratchAcquire (slot : Nat) (bytes : UInt64)
  | rmsnorm (dim : UInt32) (desc : Status)

def Session.uploaded (s : Session) : Except Status Nat × VK → Session
  | (.ok b, v) => { s with vk := v, uploads := b :: s.uploads }
  | (.error _, v) => { s with vk := v }

/-- One call. Staging buffers are in slot 900. -/
def Session.step (s : Session) : Op → Option Session
  | .bufferUpload bytes => (s.vk.bufferUpload driver bytes).map s.uploaded
  | .bufferRelease i =>
    match s.uploads[i]? with
    | none => some s
    | some b => some { s with vk := s.vk.destroyBuffer b, uploads := s.uploads.eraseIdx i }
  | .cacheGet key tag => some { s with vk := (s.vk.cacheGet key tag).2 }
  | .cacheAcquire key tag data bytes => (s.vk.cacheAcquire driver key tag data bytes).map fun r =>
      { s with vk := r.2, slots := max s.slots 901 }
  | .scratchAcquire slot bytes =>
    some { s with vk := (s.vk.scratchAcquire driver slot bytes).2, slots := max s.slots (slot + 1) }
  | .devScratchAcquire slot bytes =>
    some { s with vk := (s.vk.devbufAcquire driver slot bytes).2, slots := max s.slots (slot + 1) }
  | .rmsnorm dim desc => (s.vk.rmsnorm driver dim desc).map fun r => { s with vk := r.2 }

end Model

section Property

def Buffer.size (x : Buffer) : Nat := x.bytes.toNat

/-- The counter is the sum of the sizes of the live buffers. -/
def Accounted (v : VK) : Prop := v.memoryAllocated.toNat = v.buffers.weigh Buffer.size

instance (v : VK) : Decidable (Accounted v) := Nat.decEq _ _

/-- `vg_vk_close` destroys every buffer that is still live. -/
def Session.ClosesAll (s : Session) : Prop := ∀ b, (s.vk.close s.slots).buffers.cells b = none

/-- No device-local scratch is in use, and every upload was released. -/
def Session.Returned (s : Session) : Prop :=
  (∀ slot, s.vk.pools .devscratch slot = none) ∧ s.uploads = []

end Property

section Guard

variable (driver : Driver)

/-- `make_buffer_ex` makes the buffer, or the device refuses the buffer object; no step after the
buffer object was made fails. The bytes made sum up without a wrap. -/
def VK.MakeClean (v : VK) (bytes : UInt64) (deviceLocal : Bool) : Prop :=
  bytes = 0 ∨ v.memoryBudget < v.memoryAllocated + bytes ∨
    match driver.allocate v.calls deviceLocal with
    | .refused => True
    | .failed _ => False
    | .host | .device => v.memoryAllocated.toNat + bytes.toNat < 2 ^ 64

def VK.PoolClean (v : VK) (pool : Pool) (slot : Nat) (bytes : UInt64) : Prop :=
  bytes = 0 ∨ match v.pools pool slot with
    | none => v.MakeClean driver bytes (pool = .devscratch)
    | some (size, b) => bytes ≤ size ∨
      (v.destroyBuffer b).MakeClean driver bytes (pool = .devscratch)

/-- The same for a new cache entry, after the evictions for it, and for the staging buffer of its
upload. -/
def VK.InsertClean (v : VK) (bytes : UInt64) : Prop :=
  let v := VK.evictLoop bytes v.softLimit v.cache.length v
  v.MakeClean driver bytes true ∧ (driver.allocate v.calls true = .device →
    (v.makeBufferEx driver bytes true).2.PoolClean driver .scratch 900 bytes)

/-- No allocation of the call fails once its buffer object is made. -/
def Clean (s : Session) : Op → Prop
  | .bufferUpload bytes => s.vk.MakeClean driver bytes false
  | .cacheAcquire key tag data bytes => (key = 0 ∨ data = false ∨ bytes = 0) ∨
      (s.vk.find key tag).isSome ∨ s.vk.InsertClean driver bytes
  | .scratchAcquire slot bytes => s.vk.PoolClean driver .scratch slot bytes
  | .devScratchAcquire slot bytes => s.vk.PoolClean driver .devscratch slot bytes
  | .rmsnorm dim _ => dim = 0 ∨ s.vk.MakeClean driver (dim.toUInt64 * 4) false
  | .bufferRelease _ | .cacheGet _ _ => True

instance (v : VK) (bytes : UInt64) (deviceLocal : Bool) :
    Decidable (v.MakeClean driver bytes deviceLocal) :=
  haveI : Decidable (match driver.allocate v.calls deviceLocal with
      | .refused => True
      | .failed _ => False
      | .host | .device => v.memoryAllocated.toNat + bytes.toNat < 2 ^ 64) :=
    match driver.allocate v.calls deviceLocal with
    | .refused => isTrue trivial
    | .failed _ => isFalse id
    | .host | .device => Nat.decLt _ _
  inferInstanceAs (Decidable (_ ∨ _ ∨ _))

instance (v : VK) (pool : Pool) (slot : Nat) (bytes : UInt64) :
    Decidable (v.PoolClean driver pool slot bytes) :=
  haveI : Decidable (match v.pools pool slot with
      | none => v.MakeClean driver bytes (pool = .devscratch)
      | some (size, b) => bytes ≤ size ∨
        (v.destroyBuffer b).MakeClean driver bytes (pool = .devscratch)) :=
    match v.pools pool slot with
    | none => inferInstance
    | some (_, _) => inferInstance
  inferInstanceAs (Decidable (_ ∨ _))

instance (v : VK) (bytes : UInt64) : Decidable (v.InsertClean driver bytes) :=
  haveI (w : VK) : Decidable (driver.allocate w.calls true = .device →
      (w.makeBufferEx driver bytes true).2.PoolClean driver .scratch 900 bytes) :=
    match driver.allocate w.calls true with
    | .device => decidable_of_iff _ (forall_prop_of_true rfl).symm
    | .refused | .failed _ | .host => isTrue (by simp)
  inferInstanceAs (Decidable (_ ∧ _))

instance (s : Session) (op : Op) : Decidable (Clean driver s op) :=
  match op with
  | .bufferUpload bytes => inferInstanceAs (Decidable (s.vk.MakeClean driver bytes false))
  | .cacheAcquire key tag data bytes =>
    inferInstanceAs (Decidable ((key = 0 ∨ data = false ∨ bytes = 0) ∨
      (s.vk.find key tag).isSome ∨ s.vk.InsertClean driver bytes))
  | .scratchAcquire slot bytes =>
    inferInstanceAs (Decidable (s.vk.PoolClean driver .scratch slot bytes))
  | .devScratchAcquire slot bytes =>
    inferInstanceAs (Decidable (s.vk.PoolClean driver .devscratch slot bytes))
  | .rmsnorm dim _ =>
    inferInstanceAs (Decidable (dim = 0 ∨ s.vk.MakeClean driver (dim.toUInt64 * 4) false))
  | .bufferRelease _ | .cacheGet _ _ => isTrue trivial

end Guard

end VgEngine.Vulkan
