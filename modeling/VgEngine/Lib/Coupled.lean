import VgEngine.Lib.Logged

/-! Two runs of one computation from related states: `Coupled` carries a relation of the states
through both, with what is known of the common value. What the runs log is left open. -/
namespace VgEngine.Lib.Logged

universe u

variable {σ ε : Type*} {α β γ : Type u}

section Yields

variable {m : Logged σ ε α} {f : α → Logged σ ε β} {a : α} {b : β}

/-- The value and the state do not depend on a run: the one is given, the other is kept. -/
def Yields (m : Logged σ ε α) (a : α) : Prop := ∀ s, (m s).1 = (a, s)

/-- The computation yields some value. -/
def Stateless (m : Logged σ ε α) : Prop := ∃ a, Yields m a

theorem Yields.pure (a : α) : Yields (Pure.pure a : Logged σ ε α) a := fun _ => rfl

theorem Yields.log (e : ε) : Yields (Logged.log e : Logged σ ε Unit) () := fun _ => rfl

theorem Yields.bind (h : Yields m a) (hf : Yields (f a) b) : Yields (m >>= f) b := by
  intro s
  rw [bind_value, h s]
  exact hf s

theorem Yields.ite {c : Prop} [Decidable c] {m' : Logged σ ε α} (h : c → Yields m a)
    (h' : ¬ c → Yields m' a) : Yields (if c then m else m') a := by
  split
  · exact h ‹_›
  · exact h' ‹_›

theorem Yields.value (h : Yields m a) (s : σ) : ((m >>= f) s).1 = (f a s).1 := by
  rw [bind_value, h s]

/-- After two computations without a state, only their values matter. -/
theorem Agree.yields {m' : Logged σ ε γ} {f' : γ → Logged σ ε β} {c : γ} (h : Yields m a)
    (h' : Yields m' c) (hf : Agree (f a) (f' c)) : Agree (m >>= f) (m' >>= f') := by
  intro s
  rw [bind_value, bind_value, h s, h' s]
  exact hf s

theorem Stateless.pure (a : α) : Stateless (Pure.pure a : Logged σ ε α) := ⟨a, .pure a⟩

theorem Stateless.log (e : ε) : Stateless (Logged.log e : Logged σ ε Unit) := ⟨(), .log e⟩

theorem Stateless.bind (h : Stateless m) (hf : ∀ a, Stateless (f a)) : Stateless (m >>= f) := by
  obtain ⟨a, ha⟩ := h
  obtain ⟨b, hb⟩ := hf a
  exact ⟨b, ha.bind hb⟩

theorem Stateless.ite {c : Prop} [Decidable c] {m' : Logged σ ε α} (h : Stateless m)
    (h' : Stateless m') : Stateless (if c then m else m') := by
  split
  · exact h
  · exact h'

theorem Stateless.foldlM {step : β → α → Logged σ ε β} (h : ∀ b a, Stateless (step b a))
    (l : List α) (b : β) : Stateless (l.foldlM step b) := by
  induction l generalizing b with
  | nil => exact .pure b
  | cons a l ih =>
    rw [List.foldlM_cons]
    exact (h b a).bind ih

theorem Stateless.forM {step : α → Logged σ ε PUnit} (h : ∀ a, Stateless (step a))
    (l : List α) : Stateless (l.forM step) := by
  induction l with
  | nil => exact .pure _
  | cons a l ih =>
    change Stateless (step a >>= fun _ => l.forM step)
    exact (h a).bind fun _ => ih

end Yields

section Coupled

variable {R : σ → σ → Prop} {T : α → σ → σ → Prop} {U : β → σ → σ → Prop} {m : Logged σ ε α}
variable {f : α → Logged σ ε β}

/-- From related states the computation has one value, and the states after it are related. -/
def Coupled (R : σ → σ → Prop) (m : Logged σ ε α) (T : α → σ → σ → Prop) : Prop :=
  ∀ s s', R s s' → (m s).1.1 = (m s').1.1 ∧ T (m s).1.1 (m s).1.2 (m s').1.2

theorem Coupled.pure {a : α} (h : ∀ s s', R s s' → T a s s') :
    Coupled R (Pure.pure a : Logged σ ε α) T :=
  fun s s' hs => ⟨rfl, h s s' hs⟩

theorem Coupled.modify {T : PUnit → σ → σ → Prop} {g : σ → σ}
    (h : ∀ s s', R s s' → T () (g s) (g s')) : Coupled R (Logged.modify g : Logged σ ε Unit) T :=
  fun s s' hs => ⟨rfl, h s s' hs⟩

theorem Coupled.bind (h : Coupled R m T) (hf : ∀ a, Coupled (T a) (f a) U) :
    Coupled R (m >>= f) U := by
  intro s s' hs
  obtain ⟨hvalue, hafter⟩ := h s s' hs
  rw [bind_value, bind_value, ← hvalue]
  exact hf _ _ _ hafter

/-- What is computed without the state keeps every relation. -/
theorem Coupled.after (h : Stateless m) (hf : ∀ a, Coupled R (f a) U) :
    Coupled R (m >>= f) U := by
  obtain ⟨a, ha⟩ := h
  intro s s' hs
  rw [bind_value, bind_value, ha s, ha s']
  exact hf a s s' hs

theorem Coupled.yields {a : α} (h : Yields m a) (hf : Coupled R (f a) U) :
    Coupled R (m >>= f) U := by
  intro s s' hs
  rw [bind_value, bind_value, h s, h s']
  exact hf s s' hs

theorem Coupled.stateless (h : Stateless m) : Coupled R m fun _ => R := by
  obtain ⟨a, ha⟩ := h
  intro s s' hs
  rw [ha s, ha s']
  exact ⟨rfl, hs⟩

/-- What comes after looks only at what related states share. -/
theorem Coupled.get {σ : Type u} {R : σ → σ → Prop} {f : σ → Logged σ ε β} {U : β → σ → σ → Prop}
    (hf : ∀ t t', R t t' → f t = f t') (h : ∀ t, Coupled R (f t) U) :
    Coupled R (Logged.get >>= f) U := by
  intro s s' hs
  rw [bind_value, bind_value, get_value, get_value, ← hf s s' hs]
  exact h s s s' hs

theorem Coupled.mono {T' : α → σ → σ → Prop} (h : Coupled R m T)
    (hT : ∀ a s s', T a s s' → T' a s s') : Coupled R m T' :=
  fun s s' hs => ⟨(h s s' hs).1, hT _ _ _ (h s s' hs).2⟩

theorem Coupled.weaken {R' : σ → σ → Prop} (h : Coupled R m T)
    (hR : ∀ s s', R' s s' → R s s') : Coupled R' m T :=
  fun s s' hs => h s s' (hR s s' hs)

/-- A fact that does not speak of the states. -/
theorem Coupled.given {c : Prop} (h : c → Coupled R m T) :
    Coupled (fun s s' => R s s' ∧ c) m T :=
  fun s s' hs => h hs.2 s s' hs.1

theorem Coupled.ite {c : Prop} [Decidable c] {m' : Logged σ ε α} (h : c → Coupled R m T)
    (h' : ¬ c → Coupled R m' T) : Coupled R (if c then m else m') T := by
  split
  · exact h ‹_›
  · exact h' ‹_›

theorem Coupled.onlyIf {c : Prop} [Decidable c] {m : Logged σ ε Unit}
    {T : PUnit → σ → σ → Prop} (h : Coupled R m T) (hR : ∀ s s', R s s' → T () s s') :
    Coupled R (Logged.onlyIf c m) T :=
  .ite (fun _ => h) fun _ => .pure hR

end Coupled

end VgEngine.Lib.Logged
