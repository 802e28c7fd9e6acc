import VgEngine.Decode.Rewind

/-! A decode next to a record of what its layers store and of the pages that they attend to. The
record is only written: no operation looks at it. -/
namespace VgEngine.Decode
open Lib Bytes Gguf Model Single

/-- What a layer has stored last, and the store that its heads have attended to right after. -/
structure Visit (V S : Type) where
  pos : Nat
  k : Option V
  v : Option V
  store : S

structure Recorded (V S : Type) where
  store : S
  visits : Nat → Option (Visit V S)

section Record

variable {K : Type*} {V S : Type}

/-- The row of a position is written, and the visit is recorded. -/
def Recorded.write (ops : Ops V S) (layer pos kvd : Nat) (k v : Option V) (r : Recorded V S) :
    Recorded V S :=
  let store := ops.writeRow layer pos kvd k v r.store
  ⟨store, Function.update r.visits layer (some ⟨pos, k, v, store⟩)⟩

def recordedOps (ops : Ops V S) : Ops V (Recorded V S) :=
  { ops with
    evict := fun layer pos r => { r with store := ops.evict layer pos r.store }
    pageMissing := fun layer pos r => ops.pageMissing layer pos r.store
    addPage := fun layer pos kvd keys values r =>
      { r with store := ops.addPage layer pos kvd keys values r.store }
    writeRow := Recorded.write ops
    attend := fun layer pos kvd scored q r => ops.attend layer pos kvd scored q r.store
    dense := fun pos x r =>
      let y := ops.dense pos x r.store
      (y.1, { r with store := y.2 }) }

theorem storeEffect_recorded {cfg : ModelConfig K} {ops : Ops V S} {layer pos kvd : Nat}
    {k v : Option V} {r : Recorded V S} (hpos : pos < cfg.nCtx) :
    storeEffect cfg (recordedOps ops) layer pos kvd k v r =
      ⟨storeEffect cfg ops layer pos kvd k v r.store, Function.update r.visits layer
        (some ⟨pos, k, v, storeEffect cfg ops layer pos kvd k v r.store⟩)⟩ := by
  have hwithout : withoutPage cfg (recordedOps ops) layer pos r =
      { r with store := withoutPage cfg ops layer pos r.store } := by
    unfold withoutPage
    split
    · rfl
    · rfl
  have hwith (r : Recorded V S) : withPage (recordedOps ops) layer pos kvd r =
      { r with store := withPage ops layer pos kvd r.store } := by
    unfold withPage
    change (if ops.pageMissing layer pos r.store = true then _ else _) = _
    split
    · rfl
    · rfl
  unfold storeEffect
  rw [if_pos hpos, if_pos hpos, hwithout, hwith]
  rfl

end Record

section Run

variable {K : Type*} [Field K] [LinearOrder K] {V S : Type} {g : VgGguf} {cfg : ModelConfig K}
variable {ops : Ops V S} {s : Work V S} {a : Turn} {as : List Turn}

theorem reaches_of_succeeds (hok : a.attempt.status g cfg ops s = .ok) : a.attempt.Reaches g cfg := by
  by_contra hrefused
  exact (refused_unchanged hrefused).1 hok

/-- What each store of a decode preserves holds after it. -/
theorem turn_carries {strtof : List UInt8 → Option K} (hprobe : (modelProbe g).ok = true)
    (hload : loadConfig g strtof = some cfg) {inv : Nat → S → Prop}
    (hstore : ∀ l < cfg.nLayer, ∀ k v kv, inv l kv → inv (l + 1)
      (storeEffect cfg ops l (toSingle (toUInt32 a.attempt.kvPos)) (kvDim g cfg l) (some k) (some v)
        kv))
    (hcold : s.gpuDense ≠ some true) (hstart : inv 0 s.kv)
    (hok : a.attempt.status g cfg ops s = .ok) :
    inv cfg.nLayer (a.attempt.after g cfg ops s).kv ∧
      (a.attempt.after g cfg ops s).gpuDense ≠ some true := by
  have hcarry : Carries g cfg allOk ops (toSingle (toUInt32 a.attempt.kvPos))
      fun l kv kv' => kv = kv' ∧ inv l kv := by
    constructor
    case skip => exact fun l _ hread => absurd rfl hread
    case store =>
      rintro l hl - k v hk hv kv _ ⟨rfl, hinv⟩
      obtain ⟨k, rfl⟩ := Option.isSome_iff_exists.1 (hk rfl)
      obtain ⟨v, rfl⟩ := Option.isSome_iff_exists.1 (hv rfl)
      exact ⟨⟨rfl, hstore l hl k v kv hinv⟩, fun _ _ => rfl⟩
  have hsame (x y : V) (h : x = y) : x = y := h
  -- the decode next to itself
  have hdecode := modelGraphDecode_coupled allOk_readsOnly (projected_of_probe hprobe hload)
    allOk_laid (fedAll_of_probe hprobe hload) (reaches_of_succeeds hok) hcarry (.inl hsame) s s
    ⟨rfl, ⟨rfl, hstart⟩, hcold, hcold⟩
  rcases hdecode.2 with ⟨-, hend⟩ | ⟨hfails, -⟩
  · exact ⟨hend.kv.2, hend.cold⟩
  · exact absurd hok hfails

/-- A run never takes the dense path. -/
theorem decodeAll_cold {strtof : List UInt8 → Option K} (hprobe : (modelProbe g).ok = true)
    (hload : loadConfig g strtof = some cfg) (hcold : s.gpuDense ≠ some true)
    (hok : AllSucceed g cfg ops as s) : (decodeAll g cfg ops as s).gpuDense ≠ some true := by
  induction as generalizing s with
  | nil => exact hcold
  | cons a as ih =>
    have hnothing (l : Nat) (_ : l < cfg.nLayer) (k v : V) (kv : S) (h : True) : True := h
    exact ih (turn_carries hprobe hload hnothing hcold trivial hok.1).2 hok.2

end Run

end VgEngine.Decode
