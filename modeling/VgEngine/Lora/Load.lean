import VgEngine.Model.Metadata
import VgEngine.Quant.Elements

/-! `vg_lora_load`, which pairs the halves of a target by the names of their tensors. -/
namespace VgEngine.Lora
open VgEngine.Bytes VgEngine.Gguf VgEngine.Model VgEngine.Quant

section Model

variable {F : Type*} [CommRing F] [DecidableEq F]

/-- One target of an adapter. `b` is empty until its tensor is read. -/
structure VgLoraPair (F : Type*) where
  base : List UInt8
  a : List F
  b : Option (List F)
  rank : Nat
  inDim : Nat
  outDim : Nat
  scaling : F
deriving DecidableEq

/-- `count` is the length of the table. -/
structure VgLoraAdapter (F : Type*) where
  pairs : List (VgLoraPair F)
  capacity : Nat
  rank : Nat

/-- How the calls of one load turn out. `read` is what `vg_gguf_read` gives for all the bytes of a
record, `raw` and `out` are the allocations for it, `stale` is what the second one holds then;
`dup` is the copy of a base name, and `grow` the growth of the table to a capacity. -/
structure LoadEnv (F : Type*) where
  floats : Floats F
  isfinite : F → Bool
  read : GgufTensor → Option (List UInt8)
  raw : GgufTensor → Bool
  out : GgufTensor → Bool
  stale : Nat → F
  adapter : Bool
  dup : List UInt8 → Bool
  grow : Nat → Bool

/-- A name as the string functions see it. -/
def text (t : GgufTensor) : List UInt8 := cstr (t.name.getD [])

/-- The text is longer than the ending and ends in it. -/
def endsIn (name ending : List UInt8) : Bool :=
  ending.length < name.length && name.drop (name.length - ending.length) == ending

def suffixes : List (List UInt8 × List UInt8) :=
  [(txt ".lora_a", txt ".lora_b"), (txt ".loraA", txt ".loraB"),
    (txt ".lora_a.weight", txt ".lora_b.weight")]

/-- The base name, and whether the tensor is an A half. -/
def splitLoraName (name : List UInt8) (cap : Nat) : Option (List UInt8 × Bool) :=
  ((suffixes.flatMap fun s => [(s.1, true), (s.2, false)]).find? fun s => endsIn name s.1).bind
    fun s =>
      let n := name.length - s.1.length
      if cap < n + 1 then none else some (name.take n, s.2)

def findPair (pairs : List (VgLoraPair F)) (base : List UInt8) : Option (VgLoraPair F) :=
  pairs.find? fun p => p.base == base

/-- What is done through the pointer that `find_pair` returns. -/
def updatePair (base : List UInt8) (f : VgLoraPair F → VgLoraPair F) :
    List (VgLoraPair F) → List (VgLoraPair F)
  | [] => []
  | p :: pairs => if p.base = base then f p :: pairs else p :: updatePair base f pairs

variable (env : LoadEnv F)

def readFloatTensor (t : GgufTensor) : Option (List F) :=
  match quantInfo t.ggmlType with
  | none => none
  | some qi =>
    let elements := t.dims.prod % 2 ^ 64
    if supportedScalar qi = false ∨ elements = 0 ∨ 2 ^ 32 < elements then none
    else if env.raw t = false ∨ env.out t = false then none
    else (env.read t).bind fun raw =>
      let row := vgDequantizeRow env.floats t.ggmlType (fun i => raw.getD i 0) t.nbytes env.stale
        elements
      if row.1 = .ok then some ((List.range elements).map row.2) else none

/-- The capacity that the table is grown to. -/
def grown (capacity : Nat) : Nat := if capacity = 0 then 16 else capacity * 2

/-- The first loop, for one record. `none` leaves the loop. -/
def loadHalf (ad : VgLoraAdapter F) (t : GgufTensor) : Option (VgLoraAdapter F) :=
  if t.nDims < 2 then some ad
  else
    match splitLoraName (text t) 160 with
    | none => some ad
    | some (base, true) =>
      let inDim := dim t 0 % 2 ^ 32
      let rank := dim t 1 % 2 ^ 32
      if inDim = 0 ∨ rank = 0 then some ad
      else
        let full := ad.pairs.length = ad.capacity
        if full ∧ env.grow (grown ad.capacity) = false then none
        else
          let ad := if full then { ad with capacity := grown ad.capacity } else ad
          match env.dup base, readFloatTensor env t with
          | true, some a =>
            some { ad with
              pairs := ad.pairs ++ [⟨base, a, none, rank, inDim, 0, 1⟩]
              rank := if ad.rank < rank then rank else ad.rank }
          | _, _ => some ad
    | some (base, false) =>
      match findPair ad.pairs base with
      | none => some ad
      | some p =>
        if dim t 0 % 2 ^ 32 ≠ p.rank then some ad
        else
          let b := readFloatTensor env t
          let outDim := if b.isSome then dim t 1 % 2 ^ 32 else 0
          some { ad with
            pairs := updatePair base (fun p => { p with b := b, outDim := outDim }) ad.pairs }

def loadHalves : VgLoraAdapter F → List GgufTensor → VgLoraAdapter F
  | ad, [] => ad
  | ad, t :: ts =>
    match loadHalf env ad t with
    | none => ad
    | some ad => loadHalves ad ts

/-- The base name of a scaling tensor. -/
def scalingBase (t : GgufTensor) : Option (List UInt8) :=
  let m := (text t).length - 8
  if endsIn (text t) (txt ".scaling") = true ∧ m + 1 ≤ 160 then some ((text t).take m) else none

/-- The second loop, for one record. -/
def loadScaling (pairs : List (VgLoraPair F)) (t : GgufTensor) : List (VgLoraPair F) :=
  match scalingBase t with
  | none => pairs
  | some base =>
    match (readFloatTensor env t).bind List.head? with
    | some s =>
      if env.isfinite s = true ∧ s ≠ 0 then updatePair base (fun p => { p with scaling := s }) pairs
      else pairs
    | none => pairs

def vgLoraLoad (tensors : List GgufTensor) : Except Status (VgLoraAdapter F) :=
  if env.adapter = false then .error .nomem
  else
    let ad := loadHalves env ⟨[], 0, 0⟩ tensors
    let pairs := tensors.foldl (loadScaling env) ad.pairs
    let kept := pairs.filter fun p => p.b.isSome && p.outDim != 0
    .ok { ad with pairs := kept, capacity := kept.length }

end Model

section Tables

variable {F : Type*} {pairs : List (VgLoraPair F)} {base name : List UInt8}
  {f : VgLoraPair F → VgLoraPair F}

theorem findPair_base {p : VgLoraPair F} (h : findPair pairs base = some p) : p.base = base :=
  beq_iff_eq.1 (List.find?_some (p := fun q : VgLoraPair F => q.base == base) h)

theorem findPair_append (base : List UInt8) (pairs more : List (VgLoraPair F)) :
    findPair (pairs ++ more) base = (findPair pairs base).or (findPair more base) :=
  List.find?_append

theorem findPair_updatePair (hf : ∀ p, (f p).base = p.base) (base name : List UInt8)
    (pairs : List (VgLoraPair F)) : findPair (updatePair name f pairs) base =
      if name = base then (findPair pairs base).map f else findPair pairs base := by
  induction pairs with
  | nil => simp [updatePair, findPair]
  | cons p pairs ih =>
    unfold findPair at ih ⊢
    unfold updatePair
    by_cases hp : p.base = name
    · by_cases hbase : name = base
      · simp [hp, hbase, hf]
      · simp [hp, hbase, hf]
    · rw [if_neg hp, List.find?_cons, List.find?_cons]
      by_cases hbase : p.base = base
      · simp [hbase, show ¬ name = base by rintro rfl; exact hp hbase]
      · simp only [beq_eq_false_iff_ne.2 hbase, ih]

theorem length_updatePair (name : List UInt8) (pairs : List (VgLoraPair F)) :
    (updatePair name f pairs).length = pairs.length := by
  induction pairs with
  | nil => rfl
  | cons p pairs ih =>
    unfold updatePair
    split
    · rfl
    · rw [List.length_cons, List.length_cons, ih]

/-- Only what happens to the pair that is found matters. -/
theorem updatePair_congr {g : VgLoraPair F → VgLoraPair F}
    (h : ∀ p, findPair pairs name = some p → f p = g p) :
    updatePair name f pairs = updatePair name g pairs := by
  induction pairs with
  | nil => rfl
  | cons p pairs ih =>
    unfold findPair at h ih
    unfold updatePair
    by_cases hp : p.base = name
    · rw [if_pos hp, if_pos hp, h p (by simp [hp])]
    · rw [if_neg hp, if_neg hp, ih fun q hq => h q (by simpa [hp] using hq)]

theorem updatePair_eq_self (h : ∀ p, findPair pairs name = some p → f p = p) :
    updatePair name f pairs = pairs := by
  have hid : ∀ pairs : List (VgLoraPair F), updatePair name id pairs = pairs := by
    intro pairs
    induction pairs with
    | nil => rfl
    | cons p pairs ih =>
      unfold updatePair
      split
      · rfl
      · rw [ih]
  rw [updatePair_congr (g := id) h, hid]

theorem map_base_updatePair (hf : ∀ p, (f p).base = p.base) (name : List UInt8)
    (pairs : List (VgLoraPair F)) :
    (updatePair name f pairs).map VgLoraPair.base = pairs.map VgLoraPair.base := by
  induction pairs with
  | nil => rfl
  | cons p pairs ih =>
    unfold updatePair
    split
    · simp [hf]
    · simp [ih]

/-- Where the bases differ, a pair is what its base finds. -/
theorem mem_iff_findPair (hnodup : (pairs.map VgLoraPair.base).Nodup) {p : VgLoraPair F} :
    p ∈ pairs ↔ findPair pairs p.base = some p := by
  constructor
  · intro hp
    induction pairs with
    | nil => cases hp
    | cons q pairs ih =>
      rw [List.map_cons, List.nodup_cons] at hnodup
      unfold findPair at ih ⊢
      rcases List.mem_cons.1 hp with rfl | hp
      · simp
      · have hne : q.base ≠ p.base := fun h => hnodup.1 (h ▸ List.mem_map_of_mem hp)
        rw [List.find?_cons, beq_eq_false_iff_ne.2 hne]
        exact ih hnodup.2 hp
  · intro hfind
    exact List.mem_of_find?_eq_some hfind

end Tables

end VgEngine.Lora
