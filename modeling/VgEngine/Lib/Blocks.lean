import Mathlib.Data.List.Perm.Basic

/-! Blocks of memory: computations that allocate and free them and may fail, rules for what they hold
before and after, and for the values that they compute besides. -/
namespace VgEngine.Lib

/-- How many blocks have been allocated, and which have been freed. A block is the number of its
allocation. -/
structure Blocks where
  allocated : Nat
  freed : List Nat

/-- Each block that was allocated is held or has been freed, and that once. -/
def Blocks.Holds (h : Blocks) (held : List Nat) : Prop :=
  (h.freed ++ held).Perm (List.range h.allocated)

theorem Blocks.Holds.perm {h : Blocks} {held held' : List Nat} (hh : h.Holds held)
    (hp : held.Perm held') : h.Holds held' :=
  (hp.symm.append_left h.freed).trans hh

/-- A computation over blocks. -/
def Owning (ε α : Type) := Blocks → Except ε α × Blocks

namespace Owning

section Ops

variable {ε ε' δ α β γ : Type}

instance : Monad (Owning ε) where
  pure a := fun h => (.ok a, h)
  bind m f := fun h =>
    match m h with
    | (.ok a, h) => f a h
    | (.error e, h) => (.error e, h)

def fail (e : ε) : Owning ε α := fun h => (.error e, h)

/-- A fresh block. -/
def alloc : Owning ε Nat := fun h => (.ok h.allocated, { h with allocated := h.allocated + 1 })

def free (bs : List Nat) : Owning ε Unit := fun h => (.ok (), { h with freed := h.freed ++ bs })

/-- Go on after a failure. -/
def handle (m : Owning ε α) (f : ε → Owning ε' α) : Owning ε' α := fun h =>
  match m h with
  | (.ok a, h) => (.ok a, h)
  | (.error e, h) => f e h

def ofExcept : Except ε α → Owning ε α
  | .ok a => pure a
  | .error e => fail e

def ofOption : Option α → Owning Unit α
  | some a => pure a
  | none => fail ()

/-- A failure frees some blocks and goes by another name. -/
def orFree (bs : List Nat) (e : ε') (m : Owning ε α) : Owning ε' α :=
  m.handle fun _ => do
    free bs
    fail e

end Ops

section Rules

variable {ε ε' α β : Type} {m : Owning ε α} {f : α → Owning ε β} {h h' : Blocks}

theorem bind_ok {a : α} (hm : m h = (.ok a, h')) : (m >>= f) h = f a h' := by
  change (match m h with
    | (.ok a, h) => f a h
    | (.error e, h) => (.error e, h)) = _
  rw [hm]

theorem bind_error {e : ε} (hm : m h = (.error e, h')) : (m >>= f) h = (.error e, h') := by
  change (match m h with
    | (.ok a, h) => f a h
    | (.error e, h) => (.error e, h)) = _
  rw [hm]

theorem handle_ok {k : ε → Owning ε' α} {a : α} (hm : m h = (.ok a, h')) :
    m.handle k h = (.ok a, h') := by
  unfold handle
  rw [hm]

theorem handle_error {k : ε → Owning ε' α} {e : ε} (hm : m h = (.error e, h')) :
    m.handle k h = k e h' := by
  unfold handle
  rw [hm]

/-- From states with `P`, results come with `Q` and failures with `E`. -/
def Triple (P : Blocks → Prop) (m : Owning ε α) (Q : α → Blocks → Prop) (E : ε → Blocks → Prop) :
    Prop :=
  ∀ h, P h → (∀ a h', m h = (.ok a, h') → Q a h') ∧ ∀ e h', m h = (.error e, h') → E e h'

variable {P P' : Blocks → Prop} {Q Q' : α → Blocks → Prop} {E E' : ε → Blocks → Prop}
  {R : β → Blocks → Prop} {F : ε' → Blocks → Prop}

theorem Triple.pure {a : α} (hQ : ∀ h, P h → Q a h) :
    Triple P (Pure.pure a : Owning ε α) Q E := by
  intro h hP
  refine ⟨?_, ?_⟩
  · rintro a' h' heq
    obtain ⟨rfl, rfl⟩ : a = a' ∧ h = h' := by simpa using Prod.mk.inj heq
    exact hQ h hP
  · rintro e h' heq
    cases (Prod.mk.inj heq).1

theorem Triple.fail {e : ε} (hE : ∀ h, P h → E e h) :
    Triple P (Owning.fail e : Owning ε α) Q E := by
  intro h hP
  refine ⟨?_, ?_⟩
  · rintro a h' heq
    cases (Prod.mk.inj heq).1
  · rintro e' h' heq
    obtain ⟨rfl, rfl⟩ : e = e' ∧ h = h' := by simpa using Prod.mk.inj heq
    exact hE h hP

theorem Triple.bind (hm : Triple P m Q E) (hf : ∀ a, Triple (Q a) (f a) R E) :
    Triple P (m >>= f) R E := by
  intro h hP
  obtain ⟨hok, herror⟩ := hm h hP
  cases hr : m h with
  | mk r h₁ =>
    cases r with
    | ok a =>
      rw [bind_ok hr]
      exact hf a h₁ (hok a h₁ hr)
    | error e =>
      rw [bind_error hr]
      refine ⟨fun b h' heq => ?_, fun e' h' heq => ?_⟩
      · cases (Prod.mk.inj heq).1
      · obtain ⟨rfl, rfl⟩ : e = e' ∧ h₁ = h' := by simpa using Prod.mk.inj heq
        exact herror e h₁ hr

theorem Triple.handle {k : ε → Owning ε' α} (hm : Triple P m Q E)
    (hk : ∀ e, Triple (E e) (k e) Q F) : Triple P (m.handle k) Q F := by
  intro h hP
  obtain ⟨hok, herror⟩ := hm h hP
  cases hr : m h with
  | mk r h₁ =>
    cases r with
    | ok a =>
      rw [handle_ok hr]
      refine ⟨fun a' h' heq => ?_, fun e' h' heq => ?_⟩
      · obtain ⟨rfl, rfl⟩ : a = a' ∧ h₁ = h' := by simpa using Prod.mk.inj heq
        exact hok a h₁ hr
      · cases (Prod.mk.inj heq).1
    | error e =>
      rw [handle_error hr]
      exact hk e h₁ (herror e h₁ hr)

theorem Triple.imp (hm : Triple P m Q E) (hP : ∀ h, P' h → P h) (hQ : ∀ a h, Q a h → Q' a h)
    (hE : ∀ e h, E e h → E' e h) : Triple P' m Q' E' := by
  intro h hP'
  obtain ⟨hok, herror⟩ := hm h (hP h hP')
  exact ⟨fun a h' heq => hQ a h' (hok a h' heq), fun e h' heq => hE e h' (herror e h' heq)⟩

/-- What is known of the values does not depend on the blocks. -/
theorem Triple.of_fact {p : Prop} (hm : p → Triple P m Q E) :
    Triple (fun h => P h ∧ p) m Q E :=
  fun h hP => hm hP.2 h hP.1

end Rules

section Keeps

variable {ε ε' α β : Type} {m : Owning ε α} {held held' bs : List Nat} {ok : α → List Nat}
  {err : ε → List Nat}

/-- A computation that turns the blocks held into others, also when it fails. -/
def Keeps (held : List Nat) (m : Owning ε α) (ok : α → List Nat) (err : ε → List Nat) : Prop :=
  Triple (·.Holds held) m (fun a h => h.Holds (ok a)) fun e h => h.Holds (err e)

theorem Keeps.perm (hm : Keeps held m ok err) (hp : held'.Perm held) : Keeps held' m ok err :=
  Triple.imp hm (fun _ hh => hh.perm hp) (fun _ _ hh => hh) fun _ _ hh => hh

theorem Keeps.pure {a : α} (hp : held.Perm (ok a)) :
    Keeps held (Pure.pure a : Owning ε α) ok err :=
  Triple.pure fun _ hh => hh.perm hp

theorem Keeps.fail {e : ε} (hp : held.Perm (err e)) :
    Keeps held (Owning.fail e : Owning ε α) ok err :=
  Triple.fail fun _ hh => hh.perm hp

theorem Keeps.bind {f : α → Owning ε β} {ok' : β → List Nat} (hm : Keeps held m ok err)
    (hf : ∀ a, Keeps (ok a) (f a) ok' err) : Keeps held (m >>= f) ok' err :=
  Triple.bind hm hf

theorem triple_alloc {E : ε → Blocks → Prop} :
    Triple (·.Holds held) (alloc : Owning ε Nat) (fun b h => h.Holds (b :: held)) E := by
  intro h hh
  refine ⟨?_, ?_⟩
  · rintro b h' heq
    obtain ⟨hb, rfl⟩ := Prod.mk.inj heq
    obtain rfl : h.allocated = b := by simpa using hb
    change (h.freed ++ h.allocated :: held).Perm (List.range (h.allocated + 1))
    rw [List.range_succ]
    refine List.perm_middle.trans (List.Perm.trans ?_ (List.perm_append_singleton _ _).symm)
    exact List.Perm.cons _ hh
  · rintro e h' heq
    cases (Prod.mk.inj heq).1

theorem keeps_alloc : Keeps held (alloc : Owning ε Nat) (fun b => b :: held) err := triple_alloc

theorem triple_free {E : ε → Blocks → Prop} (hp : held'.Perm (bs ++ held)) :
    Triple (·.Holds held') (free bs : Owning ε Unit) (fun _ h => h.Holds held) E := by
  intro h hh
  refine ⟨?_, ?_⟩
  · rintro u h' heq
    obtain ⟨-, rfl⟩ := Prod.mk.inj heq
    change (h.freed ++ bs ++ held).Perm (List.range h.allocated)
    rw [List.append_assoc]
    exact hh.perm hp
  · rintro e h' heq
    cases (Prod.mk.inj heq).1

theorem keeps_free (hp : held'.Perm (bs ++ held)) :
    Keeps held' (free bs : Owning ε Unit) (fun _ => held) err :=
  triple_free hp

theorem Keeps.orFree {err' : ε' → List Nat} {e' : ε'} (hm : Keeps held m ok err)
    (hp : ∀ e, (err e).Perm (bs ++ err' e')) : Keeps held (m.orFree bs e') ok err' := by
  refine Triple.handle hm fun e => ?_
  exact Keeps.bind (keeps_free (hp e)) fun _ => Keeps.fail (List.Perm.refl _)

theorem keeps_ofOption {o : Option α} :
    Keeps held (ofOption o) (fun _ => held) fun _ => held := by
  cases o with
  | none => exact Keeps.fail (List.Perm.refl _)
  | some a => exact Keeps.pure (List.Perm.refl _)

end Keeps

section Computes

variable {ε ε' δ α β γ : Type} {m : Owning ε α} {o : Option β} {g : α → β}

/-- Whatever blocks there are, the value is that of another computation. -/
def Computes (g : α → β) (m : Owning ε α) (o : Option β) : Prop :=
  ∀ h, (m h).1.toOption.map g = o

theorem computes_ofOption (o : Option α) : Computes id (ofOption o) o := by
  intro h
  cases o <;> rfl

theorem Computes.bind {f : α → Owning ε δ} {k : β → Option γ} {g' : δ → γ} (hm : Computes g m o)
    (hf : ∀ a, Computes g' (f a) (k (g a))) : Computes g' (m >>= f) (o.bind k) := by
  intro h
  have hfirst := hm h
  cases hr : m h with
  | mk r h₁ =>
    rw [hr] at hfirst
    cases r with
    | ok a =>
      rw [bind_ok hr, ← hfirst]
      exact hf a h₁
    | error e =>
      rw [bind_error hr, ← hfirst]
      rfl

/-- What follows a failure does not undo it. -/
theorem Computes.handle {k : ε → Owning ε' α} (hm : Computes g m o)
    (hk : ∀ e h, (k e h).1.toOption = none) : Computes g (m.handle k) o := by
  intro h
  have hfirst := hm h
  cases hr : m h with
  | mk r h₁ =>
    rw [hr] at hfirst
    cases r with
    | ok a =>
      rw [handle_ok hr]
      exact hfirst
    | error e =>
      rw [handle_error hr, hk]
      exact hfirst

theorem Computes.orFree {bs : List Nat} {e' : ε'} (hm : Computes g m o) :
    Computes g (m.orFree bs e') o :=
  hm.handle fun _ _ => rfl

end Computes

end Owning

end VgEngine.Lib
