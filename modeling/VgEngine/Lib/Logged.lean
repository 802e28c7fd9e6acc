import Mathlib.Data.List.Basic

/-! Computations on a state that also write a log. What they compute and what they log are
reasoned about apart: `Logs` carries a property of every entry through a computation, `Agree`
compares what two computations compute and leaves their logs open. -/
namespace VgEngine.Lib

universe u

variable {σ ε : Type*} {α β : Type u}

/-- The value, the state after, and the entries written. -/
def Logged (σ ε α : Type*) : Type _ := σ → (α × σ) × List ε

namespace Logged

protected def pure (a : α) : Logged σ ε α := fun s => ((a, s), [])

protected def bind (m : Logged σ ε α) (f : α → Logged σ ε β) : Logged σ ε β := fun s =>
  (((f (m s).1.1) (m s).1.2).1, (m s).2 ++ ((f (m s).1.1) (m s).1.2).2)

instance : Monad (Logged σ ε) where
  pure := Logged.pure
  bind := Logged.bind

def get : Logged σ ε σ := fun s => ((s, s), [])

def modify (f : σ → σ) : Logged σ ε Unit := fun s => (((), f s), [])

def log (e : ε) : Logged σ ε Unit := fun s => (((), s), [e])

/-- The computation where the condition holds, else nothing. -/
def onlyIf (c : Prop) [Decidable c] (m : Logged σ ε Unit) : Logged σ ε Unit :=
  if c then m else pure ()

section Values

variable {m m' : Logged σ ε α} {f f' : α → Logged σ ε β} {s : σ}

@[simp] theorem pure_value (a : α) : ((pure a : Logged σ ε α) s).1 = (a, s) := rfl

@[simp] theorem bind_value :
    ((m >>= f) s).1 = ((f (m s).1.1) (m s).1.2).1 := rfl

@[simp] theorem get_value : ((get : Logged σ ε σ) s).1 = (s, s) := rfl

@[simp] theorem modify_value (h : σ → σ) : ((modify h : Logged σ ε Unit) s).1 = ((), h s) := rfl

@[simp] theorem log_value (e : ε) : ((log e : Logged σ ε Unit) s).1 = ((), s) := rfl

/-- Both computations have the same value and leave the same state. -/
def Agree (m m' : Logged σ ε α) : Prop := ∀ s, (m s).1 = (m' s).1

theorem Agree.refl (m : Logged σ ε α) : Agree m m := fun _ => rfl

theorem Agree.bind (h : Agree m m') (hf : ∀ a, Agree (f a) (f' a)) :
    Agree (m >>= f) (m' >>= f') := by
  intro s
  rw [bind_value, bind_value, h s]
  exact hf _ _

theorem Agree.ite {c : Prop} [Decidable c] {n n' : Logged σ ε α} (h : Agree m m')
    (h' : Agree n n') : Agree (if c then m else n) (if c then m' else n') := by
  split
  · exact h
  · exact h'

end Values

section Entries

variable {P Q : ε → Prop} {m : Logged σ ε α} {f : α → Logged σ ε β} {s : σ} {e : ε}

@[simp] theorem pure_log (a : α) : ((pure a : Logged σ ε α) s).2 = [] := rfl

@[simp] theorem bind_log :
    ((m >>= f) s).2 = (m s).2 ++ ((f (m s).1.1) (m s).1.2).2 := rfl

@[simp] theorem get_log : ((get : Logged σ ε σ) s).2 = [] := rfl

@[simp] theorem modify_log (h : σ → σ) : ((modify h : Logged σ ε Unit) s).2 = [] := rfl

@[simp] theorem log_log (e : ε) : ((log e : Logged σ ε Unit) s).2 = [e] := rfl

/-- Every entry that the computation writes has the property. -/
def Logs (P : ε → Prop) (m : Logged σ ε α) : Prop := ∀ s, ∀ e ∈ (m s).2, P e

theorem Logs.pure (a : α) : Logs P (Pure.pure a : Logged σ ε α) := by
  intro s e he
  cases he

theorem Logs.get : Logs P (get : Logged σ ε σ) := by
  intro s e he
  cases he

theorem Logs.modify (h : σ → σ) : Logs P (modify h : Logged σ ε Unit) := by
  intro s e he
  cases he

theorem Logs.log (h : P e) : Logs P (log e : Logged σ ε Unit) := by
  intro s e' he
  rwa [List.mem_singleton.1 he]

theorem Logs.bind (h : Logs P m) (hf : ∀ a, Logs P (f a)) : Logs P (m >>= f) := by
  intro s e he
  rw [bind_log, List.mem_append] at he
  rcases he with he | he
  · exact h s e he
  · exact hf _ _ e he

theorem Logs.ite {c : Prop} [Decidable c] {m' : Logged σ ε α} (h : Logs P m) (h' : Logs P m') :
    Logs P (if c then m else m') := by
  split
  · exact h
  · exact h'

theorem Logs.onlyIf {c : Prop} [Decidable c] {m : Logged σ ε Unit} (h : Logs P m) :
    Logs P (Logged.onlyIf c m) :=
  h.ite (Logs.pure ())

theorem Logs.foldlM {step : β → α → Logged σ ε β} (h : ∀ b a, Logs P (step b a)) (l : List α)
    (b : β) : Logs P (l.foldlM step b) := by
  induction l generalizing b with
  | nil => exact Logs.pure b
  | cons a l ih =>
    rw [List.foldlM_cons]
    exact (h b a).bind ih

theorem Logs.forM {step : α → Logged σ ε PUnit} (h : ∀ a, Logs P (step a)) (l : List α) :
    Logs P (l.forM step) := by
  induction l with
  | nil => exact Logs.pure _
  | cons a l ih =>
    change Logs P (step a >>= fun _ => l.forM step)
    exact (h a).bind fun _ => ih

/-- What one step of a loop writes is in the log of the loop. -/
theorem mem_forM_log {step : α → Logged σ ε PUnit} {l : List α} {a : α} (ha : a ∈ l)
    (h : ∀ s, e ∈ (step a s).2) (s : σ) : e ∈ (l.forM step s).2 := by
  induction l generalizing s with
  | nil => cases ha
  | cons b l ih =>
    change e ∈ ((step b >>= fun _ => l.forM step) s).2
    rw [bind_log, List.mem_append]
    rcases List.mem_cons.1 ha with rfl | ha
    · exact Or.inl (h s)
    · exact Or.inr (ih ha _)

end Entries

section Follows

variable {bad bad' : ε → Prop} {m m' : Logged σ ε α} {f f' : α → Logged σ ε β}

/-- The two computations are the same from every state, unless each of them writes an entry that
is bad for it. -/
def Follows (bad bad' : ε → Prop) (m m' : Logged σ ε α) : Prop :=
  ∀ s, m s = m' s ∨ ((∃ e ∈ (m s).2, bad e) ∧ ∃ e ∈ (m' s).2, bad' e)

theorem Follows.refl (m : Logged σ ε α) : Follows bad bad' m m := fun _ => Or.inl rfl

theorem Follows.bind (h : Follows bad bad' m m') (hf : ∀ a, Follows bad bad' (f a) (f' a)) :
    Follows bad bad' (m >>= f) (m' >>= f') := by
  intro s
  rcases h s with heq | ⟨⟨e, he, hbad⟩, ⟨e', he', hbad'⟩⟩
  · have hsplit (n : Logged σ ε α) (k : α → Logged σ ε β) : (n >>= k) s =
        (((k (n s).1.1) (n s).1.2).1, (n s).2 ++ ((k (n s).1.1) (n s).1.2).2) := rfl
    rw [hsplit, hsplit, heq]
    rcases hf (m' s).1.1 (m' s).1.2 with hsame | ⟨⟨e, he, hbad⟩, ⟨e', he', hbad'⟩⟩
    · left
      rw [hsame]
    · right
      exact ⟨⟨e, List.mem_append_right _ he, hbad⟩, ⟨e', List.mem_append_right _ he', hbad'⟩⟩
  · right
    exact ⟨⟨e, List.mem_append_left _ he, hbad⟩, ⟨e', List.mem_append_left _ he', hbad'⟩⟩

/-- Once both have written a bad entry, what comes after does not matter. -/
theorem Follows.of_bad (h : ∀ s, ∃ e ∈ (m s).2, bad e) (h' : ∀ s, ∃ e ∈ (m' s).2, bad' e) :
    Follows bad bad' (m >>= f) (m' >>= f') := by
  intro s
  obtain ⟨e, he, hbad⟩ := h s
  obtain ⟨e', he', hbad'⟩ := h' s
  exact Or.inr ⟨⟨e, List.mem_append_left _ he, hbad⟩, ⟨e', List.mem_append_left _ he', hbad'⟩⟩

theorem Follows.ite {c : Prop} [Decidable c] {n n' : Logged σ ε α} (h : Follows bad bad' m m')
    (h' : Follows bad bad' n n') :
    Follows bad bad' (if c then m else n) (if c then m' else n') := by
  split
  · exact h
  · exact h'

theorem Follows.onlyIf {c : Prop} [Decidable c] {n n' : Logged σ ε Unit}
    (h : Follows bad bad' n n') : Follows bad bad' (Logged.onlyIf c n) (Logged.onlyIf c n') :=
  h.ite (Follows.refl _)

theorem Follows.foldlM {step step' : β → α → Logged σ ε β}
    (h : ∀ b a, Follows bad bad' (step b a) (step' b a)) (l : List α) (b : β) :
    Follows bad bad' (l.foldlM step b) (l.foldlM step' b) := by
  induction l generalizing b with
  | nil => exact Follows.refl _
  | cons a l ih =>
    rw [List.foldlM_cons, List.foldlM_cons]
    exact (h b a).bind ih

theorem Follows.forM {step step' : α → Logged σ ε PUnit}
    (h : ∀ a, Follows bad bad' (step a) (step' a)) (l : List α) :
    Follows bad bad' (l.forM step) (l.forM step') := by
  induction l with
  | nil => exact Follows.refl _
  | cons a l ih =>
    change Follows bad bad' (step a >>= fun _ => l.forM step) (step' a >>= fun _ => l.forM step')
    exact (h a).bind fun _ => ih

/-- Without a bad entry on either side the two are the same. -/
theorem Follows.eq_of_good (h : Follows bad bad' m m') {s : σ}
    (hgood : ∀ e ∈ (m' s).2, ¬ bad' e) : m s = m' s := by
  rcases h s with heq | ⟨-, e, he, hbad⟩
  · exact heq
  · exact absurd hbad (hgood e he)

theorem Follows.eq_of_unharmed (h : Follows bad bad' m m') {s : σ}
    (hgood : ∀ e ∈ (m s).2, ¬ bad e) : m s = m' s := by
  rcases h s with heq | ⟨⟨e, he, hbad⟩, -⟩
  · exact heq
  · exact absurd hbad (hgood e he)

end Follows

section Reports

variable {P stop : ε → Prop} {good : α → Prop} {good' : β → Prop} {m : Logged σ ε α}
variable {f : α → Logged σ ε β}

/-- Every entry has the property, and the value is good exactly when no entry stops. -/
def Reports (P stop : ε → Prop) (good : α → Prop) (m : Logged σ ε α) : Prop :=
  ∀ s, (∀ e ∈ (m s).2, P e) ∧ (good (m s).1.1 ↔ ∀ e ∈ (m s).2, ¬ stop e)

theorem Reports.of_logs (h : Logs (fun e => P e ∧ ¬ stop e) m) (hgood : ∀ s, good (m s).1.1) :
    Reports P stop good m := by
  intro s
  constructor
  · exact fun e he => (h s e he).1
  · exact iff_of_true (hgood s) fun e he => (h s e he).2

/-- After a computation that stops nothing, the rest decides. -/
theorem Reports.after (h : Logs (fun e => P e ∧ ¬ stop e) m)
    (hf : ∀ a, Reports P stop good' (f a)) : Reports P stop good' (m >>= f) := by
  intro s
  obtain ⟨hP, hgood⟩ := hf (m s).1.1 (m s).1.2
  rw [bind_value, bind_log]
  constructor
  · intro e he
    rcases List.mem_append.1 he with he | he
    · exact (h s e he).1
    · exact hP e he
  · rw [hgood]
    constructor
    · intro hrest e he
      rcases List.mem_append.1 he with he | he
      · exact (h s e he).2
      · exact hrest e he
    · exact fun hall e he => hall e (List.mem_append_right _ he)

/-- The rest runs where the value is good; where it is not, the whole ends without it. -/
theorem Reports.bind (h : Reports P stop good m)
    (hgo : ∀ a, good a → Reports P stop good' (f a))
    (hend : ∀ a, ¬ good a → ∀ s, ((f a) s).2 = [] ∧ ¬ good' ((f a) s).1.1) :
    Reports P stop good' (m >>= f) := by
  intro s
  obtain ⟨hP, hgood⟩ := h s
  rw [bind_value, bind_log]
  by_cases ha : good (m s).1.1
  · obtain ⟨hP', hgood'⟩ := hgo _ ha (m s).1.2
    have hquiet := hgood.1 ha
    constructor
    · intro e he
      rcases List.mem_append.1 he with he | he
      · exact hP e he
      · exact hP' e he
    · rw [hgood']
      constructor
      · intro hrest e he
        rcases List.mem_append.1 he with he | he
        · exact hquiet e he
        · exact hrest e he
      · exact fun hall e he => hall e (List.mem_append_right _ he)
  · obtain ⟨hempty, hbad⟩ := hend _ ha (m s).1.2
    rw [hempty, List.append_nil]
    exact ⟨hP, iff_of_false hbad fun hall => ha (hgood.2 hall)⟩

theorem Reports.ite {c : Prop} [Decidable c] {m' : Logged σ ε α} (h : Reports P stop good m)
    (h' : Reports P stop good m') : Reports P stop good (if c then m else m') := by
  split
  · exact h
  · exact h'

end Reports

section Settles

variable {P : ε → Prop} {Q good : α → Prop} {R good' : β → Prop} {c c' : Prop}
variable {m : Logged σ ε α} {f : α → Logged σ ε β}

/-- The value has a property from every state, and every entry has one exactly when `c` holds. -/
def Meets (P : ε → Prop) (Q : α → Prop) (c : Prop) (m : Logged σ ε α) : Prop :=
  ∀ s, Q (m s).1.1 ∧ ((∀ e ∈ (m s).2, P e) ↔ c)

/-- The value is good and every entry has the property, both exactly when `c` holds. -/
def Settles (P : ε → Prop) (good : α → Prop) (c : Prop) (m : Logged σ ε α) : Prop :=
  ∀ s, (good (m s).1.1 ∧ ∀ e ∈ (m s).2, P e) ↔ c

theorem forall_bind_log (s : σ) : (∀ e ∈ ((m >>= f) s).2, P e) ↔
    (∀ e ∈ (m s).2, P e) ∧ ∀ e ∈ ((f (m s).1.1) (m s).1.2).2, P e := by
  simp only [bind_log, List.mem_append, or_imp, forall_and]

theorem Meets.of_logs (h : Logs P m) (hQ : ∀ s, Q (m s).1.1) : Meets P Q True m :=
  fun s => ⟨hQ s, iff_true_intro (h s)⟩

theorem Meets.bind (h : Meets P Q c m) (hf : ∀ a, Q a → Meets P R c' (f a)) :
    Meets P R (c ∧ c') (m >>= f) := by
  intro s
  obtain ⟨hQ, hc⟩ := h s
  obtain ⟨hR, hc'⟩ := hf _ hQ (m s).1.2
  constructor
  · exact hR
  · rw [forall_bind_log, hc, hc']

theorem Meets.after (h : Logs P m) (hf : ∀ a, Meets P R c (f a)) : Meets P R c (m >>= f) := by
  intro s
  obtain ⟨hR, hc⟩ := hf (m s).1.1 (m s).1.2
  constructor
  · exact hR
  · rw [forall_bind_log, hc]
    exact and_iff_right (h s)

/-- What comes first writes nothing bad; only its value matters. -/
theorem Meets.known (h : Meets P Q True m) (hf : ∀ a, Q a → Meets P R c (f a)) :
    Meets P R c (m >>= f) := by
  intro s
  obtain ⟨hR, hc⟩ := h.bind hf s
  exact ⟨hR, hc.trans (and_iff_right trivial)⟩

/-- What comes last writes nothing bad. -/
theorem Meets.last (h : Meets P Q c m) (hf : ∀ a, Logs P (f a))
    (hR : ∀ a s, Q a → R ((f a) s).1.1) : Meets P R c (m >>= f) := by
  intro s
  obtain ⟨hQ, hc⟩ := h s
  constructor
  · exact hR _ _ hQ
  · rw [forall_bind_log, hc]
    exact and_iff_left (hf _ _)

theorem Meets.iff (h : Meets P Q c m) (hc : c ↔ c') : Meets P Q c' m :=
  fun s => ⟨(h s).1, (h s).2.trans hc⟩

/-- Each step of a loop meets a condition of its own. -/
theorem Meets.forM {step : α → Logged σ ε PUnit} {d : α → Prop} {l : List α}
    (h : ∀ a ∈ l, Meets P (fun _ => True) (d a) (step a)) :
    Meets P (fun _ => True) (∀ a ∈ l, d a) (l.forM step) := by
  induction l with
  | nil => exact (of_logs (.pure _) fun _ => trivial).iff (by simp)
  | cons a l ih =>
    rw [List.forall_mem_cons]
    change Meets P _ _ (step a >>= fun _ => l.forM step)
    exact (h a List.mem_cons_self).bind fun _ _ => ih fun b hb => h b (List.mem_cons_of_mem _ hb)

theorem Meets.settles (h : Meets P good c m) : Settles P good c m :=
  fun s => ⟨fun hs => (h s).2.1 hs.2, fun hc => ⟨(h s).1, (h s).2.2 hc⟩⟩

theorem Settles.of_logs (h : Logs P m) (hgood : ∀ s, good (m s).1.1 ↔ c) :
    Settles P good c m :=
  fun s => ⟨fun hs => (hgood s).1 hs.1, fun hc => ⟨(hgood s).2 hc, h s⟩⟩

theorem Settles.never (h : ∀ s, good (m s).1.1 → ∃ e ∈ (m s).2, ¬ P e) :
    Settles P good False m := by
  intro s
  apply iff_false_intro
  rintro ⟨hgood, hall⟩
  obtain ⟨e, he, hbad⟩ := h s hgood
  exact hbad (hall e he)

theorem Settles.iff (h : Settles P good c m) (hc : c ↔ c') : Settles P good c' m :=
  fun s => (h s).trans hc

theorem Settles.after (h : Logs P m) (hf : ∀ a, Settles P good' c (f a)) :
    Settles P good' c (m >>= f) := by
  intro s
  rw [forall_bind_log, ← hf (m s).1.1 (m s).1.2]
  constructor
  · rintro ⟨hgood, -, hrest⟩
    exact ⟨hgood, hrest⟩
  · rintro ⟨hgood, hrest⟩
    exact ⟨hgood, h s, hrest⟩

theorem Settles.bind (h : Meets P Q c m) (hf : ∀ a, Q a → Settles P good' c' (f a)) :
    Settles P good' (c ∧ c') (m >>= f) := by
  intro s
  obtain ⟨hQ, hc⟩ := h s
  rw [forall_bind_log, ← hf _ hQ (m s).1.2, ← hc]
  constructor
  · rintro ⟨hgood, hfirst, hrest⟩
    exact ⟨hfirst, hgood, hrest⟩
  · rintro ⟨hfirst, hgood, hrest⟩
    exact ⟨hgood, hfirst, hrest⟩

theorem Settles.known (h : Meets P Q True m) (hf : ∀ a, Q a → Settles P good' c (f a)) :
    Settles P good' c (m >>= f) :=
  (Settles.bind h hf).iff (and_iff_right trivial)

/-- The rest runs where the value is good; where it is not, the whole settles nothing. -/
theorem Settles.step (h : Settles P good c m) (hQ : ∀ s, Q (m s).1.1)
    (hgo : ∀ a, good a → Settles P good' c' (f a))
    (hend : ∀ a, Q a → ¬ good a → Settles P good' False (f a)) :
    Settles P good' (c ∧ c') (m >>= f) := by
  intro s
  rw [forall_bind_log, ← h s]
  by_cases hgood : good (m s).1.1
  · rw [← hgo _ hgood (m s).1.2]
    constructor
    · rintro ⟨hgood', hfirst, hrest⟩
      exact ⟨⟨hgood, hfirst⟩, hgood', hrest⟩
    · rintro ⟨⟨-, hfirst⟩, hgood', hrest⟩
      exact ⟨hgood', hfirst, hrest⟩
  · constructor
    · rintro ⟨hgood', -, hrest⟩
      exact absurd ⟨hgood', hrest⟩ (hend _ (hQ s) hgood _).1
    · rintro ⟨⟨hgood', -⟩, -⟩
      exact absurd hgood' hgood

/-- Where the rest settles nothing, the whole does not. -/
theorem Settles.ends (hQ : ∀ s, Q (m s).1.1) (hf : ∀ a, Q a → Settles P good' False (f a)) :
    Settles P good' False (m >>= f) := by
  intro s
  rw [forall_bind_log]
  apply iff_false_intro
  rintro ⟨hgood, -, hrest⟩
  exact (hf _ (hQ s) _).1 ⟨hgood, hrest⟩

/-- Where a good value settles nothing, the whole does not. -/
theorem Settles.begins (h : Settles P good False m)
    (hend : ∀ a, ¬ good a → Settles P good' False (f a)) : Settles P good' False (m >>= f) := by
  intro s
  rw [forall_bind_log]
  apply iff_false_intro
  rintro ⟨hgood', hfirst, hrest⟩
  by_cases hgood : good (m s).1.1
  · exact (h s).1 ⟨hgood, hfirst⟩
  · exact (hend _ hgood _).1 ⟨hgood', hrest⟩

theorem Settles.skip (hf : ∀ a, Settles P good' False (f a)) : Settles P good' False (m >>= f) :=
  .ends (Q := fun _ => True) (fun _ => trivial) fun a _ => hf a

theorem Settles.pure (a : α) (h : good a ↔ c) : Settles P good c (Pure.pure a : Logged σ ε α) :=
  .of_logs (.pure a) fun _ => h

end Settles

end Logged

end VgEngine.Lib
