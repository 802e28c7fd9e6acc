import VgEngine.Lib.Coupled

/-! Computations that leave a part of the state as it is, and what is known of their values in every
state. -/
namespace VgEngine.Lib.Logged

universe u

variable {σ ε τ : Type*} {α β : Type u} {view : σ → τ} {m : Logged σ ε α} {f : α → Logged σ ε β}

section Frames

/-- The part that `view` shows is the same before and after. -/
def Frames (view : σ → τ) (m : Logged σ ε α) : Prop := ∀ s, view (m s).1.2 = view s

theorem Stateless.frames (h : Stateless m) : Frames view m := by
  obtain ⟨a, ha⟩ := h
  intro s
  rw [ha s]

theorem Frames.pure (a : α) : Frames view (Pure.pure a : Logged σ ε α) := fun _ => rfl

theorem Frames.log (e : ε) : Frames view (Logged.log e : Logged σ ε Unit) := fun _ => rfl

theorem Frames.get {σ : Type u} {view : σ → τ} : Frames view (Logged.get : Logged σ ε σ) :=
  fun _ => rfl

theorem Frames.modify {g : σ → σ} (h : ∀ s, view (g s) = view s) :
    Frames view (Logged.modify g : Logged σ ε Unit) := h

theorem Frames.bind (h : Frames view m) (hf : ∀ a, Frames view (f a)) : Frames view (m >>= f) := by
  intro s
  rw [bind_value, hf _ _, h s]

theorem Frames.ite {c : Prop} [Decidable c] {m' : Logged σ ε α} (h : Frames view m)
    (h' : Frames view m') : Frames view (if c then m else m') := by
  split
  · exact h
  · exact h'

theorem Frames.onlyIf {c : Prop} [Decidable c] {m : Logged σ ε Unit} (h : Frames view m) :
    Frames view (Logged.onlyIf c m) :=
  .ite h (.pure ())

theorem Frames.forM {step : α → Logged σ ε PUnit} (h : ∀ a, Frames view (step a)) (l : List α) :
    Frames view (l.forM step) := by
  induction l with
  | nil => exact .pure _
  | cons a l ih =>
    change Frames view (step a >>= fun _ => l.forM step)
    exact (h a).bind fun _ => ih

end Frames

section Ensures

variable {P : α → Prop} {Q : β → Prop}

/-- From every state the value has the property. -/
def Ensures (m : Logged σ ε α) (P : α → Prop) : Prop := ∀ s, P (m s).1.1

theorem Ensures.trivial : Ensures m fun _ => True := fun _ => True.intro

theorem Ensures.pure {a : α} (h : P a) : Ensures (Pure.pure a : Logged σ ε α) P := fun _ => h

theorem Yields.ensures {a : α} (h : Yields m a) : Ensures m (· = a) := by
  intro s
  rw [h s]

theorem Ensures.bind (h : Ensures m P) (hf : ∀ a, P a → Ensures (f a) Q) :
    Ensures (m >>= f) Q := by
  intro s
  rw [bind_value]
  exact hf _ (h s) _

/-- The value of what comes last. -/
theorem Ensures.last (hf : ∀ a, Ensures (f a) Q) : Ensures (m >>= f) Q :=
  Ensures.trivial.bind fun a _ => hf a

theorem Frames.bind_of (h : Frames view m) (hm : Ensures m P) (hf : ∀ a, P a → Frames view (f a)) :
    Frames view (m >>= f) := by
  intro s
  rw [bind_value, hf _ (hm s) _, h s]

/-- What comes after needs to agree only on the values that there can be. -/
theorem Agree.bind_of {m' : Logged σ ε α} {f' : α → Logged σ ε β} (h : Agree m m')
    (hm : Ensures m P) (hf : ∀ a, P a → Agree (f a) (f' a)) : Agree (m >>= f) (m' >>= f') := by
  intro s
  rw [bind_value, bind_value, ← h s]
  exact hf _ (hm s) _

end Ensures

end VgEngine.Lib.Logged
