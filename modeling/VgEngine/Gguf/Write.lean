import VgEngine.Gguf.Layout

/-! The writer of the fixtures, and the text form of the values it writes. -/
namespace VgEngine.Gguf
open Bytes

/-- A tensor to be written. -/
structure FixTensor where
  name : List UInt8
  dims : List Nat
  type : Nat
  payload : List UInt8

structure FixFile where
  metas : List (List UInt8 × MetaValue)
  tensors : List FixTensor

def round32 (v : Nat) : Nat := (v + 31) / 32 * 32

/-- `layout`: the offset of each tensor is fixed before the file is written. -/
def layout : Nat → List FixTensor → List TensorDecl
  | _, [] => []
  | cursor, t :: ts =>
    ⟨t.name, t.dims, t.type, cursor⟩ :: layout (round32 (cursor + t.payload.length)) ts

/-- `while (len % 32u)` put a zero byte. -/
def pad32 (bytes : List UInt8) : List UInt8 :=
  bytes ++ List.replicate (round32 bytes.length - bytes.length) 0

def FixFile.index (f : FixFile) : IndexLayout := ⟨3, f.metas, layout 0 f.tensors⟩

def payloads (ts : List FixTensor) : List UInt8 := ts.flatMap fun t => pad32 t.payload

/-- `write_file`: the padded index, then every payload padded. -/
def writeFile (f : FixFile) : List UInt8 := pad32 f.index.encode ++ payloads f.tensors

def NulFree (s : List UInt8) : Prop := ∀ b ∈ s, b ≠ 0

/-- Neither a quote nor a backslash. -/
def NoEscape (s : List UInt8) : Prop := ∀ b ∈ s, b ≠ 34 ∧ b ≠ 92

mutual
/-- Strings are free of NUL, and those inside an array need no escapes. -/
def MetaValue.Plain (inArray : Bool) : MetaValue → Prop
  | .int _ _ => True
  | .float32 _ => True
  | .float64 _ => True
  | .bool _ => True
  | .string s => NulFree s ∧ (inArray = true → NoEscape s)
  | .array _ items => PlainItems items
def PlainItems : List MetaValue → Prop
  | [] => True
  | v :: vs => v.Plain true ∧ PlainItems vs
end

mutual
/-- The text form of a value: numbers in decimal, strings as they are, and arrays in
brackets, separated by commas, with strings in quotes. -/
def MetaValue.render (env : Libc) : MetaValue → List UInt8
  | .int _ v => decimalInt v
  | .float32 bits => env.formatF32 bits
  | .float64 bits => env.formatF64 bits
  | .bool raw => boolText raw.toNat
  | .string s => s
  | .array elem items => 91 :: renderItems env (elem == 8) items ++ [93]
def renderItems (env : Libc) (quoted : Bool) : List MetaValue → List UInt8
  | [] => []
  | v :: vs =>
    (if quoted then 34 :: v.render env ++ [34] else v.render env) ++ renderMore env quoted vs
def renderMore (env : Libc) (quoted : Bool) : List MetaValue → List UInt8
  | [] => []
  | v :: vs => 44 :: (if quoted then 34 :: v.render env ++ [34] else v.render env) ++
      renderMore env quoted vs
end

theorem escape_of_noEscape {s : List UInt8} (h : NoEscape s) : escape s = s := by
  induction s with
  | nil => rfl
  | cons b s ih =>
    obtain ⟨hquote, hslash⟩ := h b List.mem_cons_self
    have htail := ih fun c hc => h c (List.mem_cons_of_mem _ hc)
    unfold escape at htail ⊢
    rw [List.flatMap_cons, htail, if_neg (by simp [hquote, hslash])]
    rfl

variable (env : Libc)

mutual
theorem MetaValue.text_eq_render (v : MetaValue) {inArray : Bool} (h : v.Plain inArray)
    (hv : v.Valid) : v.text env escape = v.render env := by
  cases v with
  | string s => exact cstr_eq_self h.1
  | array elem items =>
    unfold MetaValue.text MetaValue.render
    rw [itemsText_eq_render elem items h hv.2.2]
  | _ => rfl
theorem itemText_eq_render (elem : Nat) (v : MetaValue) (h : v.Plain true) (hv : v.Valid)
    (hcode : v.typeCode = elem) :
    (if (elem == 8) = true then 34 :: escape (v.text env escape) ++ [34]
      else v.text env escape) =
      if (elem == 8) = true then 34 :: v.render env ++ [34] else v.render env := by
  rw [MetaValue.text_eq_render v h hv]
  by_cases helem : elem = 8
  · subst helem
    cases v with
    | string s => simp only [beq_self_eq_true, if_true, MetaValue.render, escape_of_noEscape (h.2 rfl)]
    | int t _ => cases t <;> simp [MetaValue.typeCode, IntType.code] at hcode
    | _ => simp [MetaValue.typeCode] at hcode
  · simp [helem]
theorem itemsText_eq_render (elem : Nat) (vs : List MetaValue) (h : PlainItems vs)
    (hvs : ValidItems elem vs) :
    itemsText env escape (elem == 8) true vs = renderItems env (elem == 8) vs := by
  cases vs with
  | nil => rfl
  | cons v vs =>
    unfold itemsText renderItems
    rw [itemText_eq_render elem v h.1 hvs.2.1 hvs.1, itemsText_eq_renderMore elem vs h.2 hvs.2.2]
    rfl
theorem itemsText_eq_renderMore (elem : Nat) (vs : List MetaValue) (h : PlainItems vs)
    (hvs : ValidItems elem vs) :
    itemsText env escape (elem == 8) false vs = renderMore env (elem == 8) vs := by
  cases vs with
  | nil => rfl
  | cons v vs =>
    unfold itemsText renderMore
    rw [itemText_eq_render elem v h.1 hvs.2.1 hvs.1, itemsText_eq_renderMore elem vs h.2 hvs.2.2]
    rfl
end

end VgEngine.Gguf
