import Mathlib.Data.List.Basic

/-! Runs of a partial step function. A step that returns `none` is outside the
machine's defined behaviour, so a run is defined exactly when all its steps are.
Invariants travel along the steps that meet a guard, and a property that the
guard decides at each step is decided for the whole run. -/
namespace VgEngine.Run

variable {σ α : Type*} (step : σ → α → Option σ)

/-- Execute the actions from left to right. -/
def exec : σ → List α → Option σ
  | s, [] => some s
  | s, a :: as => (step s a).bind fun s' => exec s' as

/-- `P` holds in every state the run reaches, its first state included. -/
def Always (P : σ → Prop) (s : σ) (as : List α) : Prop :=
  ∀ done s', done <+: as → exec step s done = some s' → P s'

/-- Each action of the run is taken in a state that meets the guard. -/
def Guarded (G : σ → α → Prop) (s : σ) (as : List α) : Prop :=
  ∀ done a s', done ++ [a] <+: as → exec step s done = some s' → G s' a

@[simp] theorem exec_nil (s : σ) : exec step s [] = some s := rfl

@[simp] theorem exec_cons (s : σ) (a : α) (as : List α) :
    exec step s (a :: as) = (step s a).bind fun s' => exec step s' as := rfl

theorem exec_append (s : σ) (as bs : List α) :
    exec step s (as ++ bs) = (exec step s as).bind fun s' => exec step s' bs := by
  induction as generalizing s with
  | nil => simp
  | cons a as ih =>
    simp only [List.cons_append, exec_cons]
    cases step s a with
    | none => rfl
    | some s' => simpa using ih s'

variable {step}

theorem guarded_nil {G : σ → α → Prop} {s : σ} : Guarded step G s [] := by
  intro done a s' hdone
  simp at hdone

theorem Guarded.head {G : σ → α → Prop} {s : σ} {a : α} {as : List α}
    (h : Guarded step G s (a :: as)) : G s a :=
  h [] a s (by simp) rfl

theorem Guarded.tail {G : σ → α → Prop} {s s' : σ} {a : α} {as : List α}
    (h : Guarded step G s (a :: as)) (hs : step s a = some s') : Guarded step G s' as := by
  intro done b t hdone hexec
  refine h (a :: done) b t ?_ ?_
  · simpa using hdone
  · simpa [hs] using hexec

theorem guarded_cons {G : σ → α → Prop} {s s' : σ} {a : α} {as : List α}
    (hs : step s a = some s') :
    Guarded step G s (a :: as) ↔ G s a ∧ Guarded step G s' as := by
  constructor
  · intro h
    exact ⟨h.head, h.tail hs⟩
  · rintro ⟨ha, has⟩ done b t hdone hexec
    cases done with
    | nil =>
      obtain ⟨rfl, -⟩ : b = a ∧ [] <+: as := by simpa using hdone
      cases Option.some.inj hexec
      exact ha
    | cons c done =>
      obtain ⟨rfl, htail⟩ : c = a ∧ done ++ [b] <+: as := by simpa using hdone
      exact has done b t htail (by simpa [hs] using hexec)

theorem always_cons {P : σ → Prop} {s s' : σ} {a : α} {as : List α}
    (hs : step s a = some s') :
    Always step P s (a :: as) ↔ P s ∧ Always step P s' as := by
  constructor
  · intro h
    refine ⟨h [] s (by simp) rfl, fun done t hdone hexec => ?_⟩
    exact h (a :: done) t (by simpa using hdone) (by simpa [hs] using hexec)
  · rintro ⟨h0, h1⟩ done t hdone hexec
    cases done with
    | nil =>
      cases Option.some.inj hexec
      exact h0
    | cons c done =>
      obtain ⟨rfl, htail⟩ : c = a ∧ done <+: as := by simpa using hdone
      exact h1 done t htail (by simpa [hs] using hexec)

theorem always_none {P : σ → Prop} {s : σ} {a : α} {as : List α}
    (hs : step s a = none) : Always step P s (a :: as) ↔ P s := by
  constructor
  · intro h
    exact h [] s (by simp) rfl
  · intro h0 done t hdone hexec
    cases done with
    | nil =>
      cases Option.some.inj hexec
      exact h0
    | cons c done =>
      obtain ⟨rfl, -⟩ : c = a ∧ done <+: as := by simpa using hdone
      simp [hs] at hexec

theorem guarded_none {G : σ → α → Prop} {s : σ} {a : α} {as : List α}
    (hs : step s a = none) : Guarded step G s (a :: as) ↔ G s a := by
  constructor
  · exact Guarded.head
  · intro ha done b t hdone hexec
    cases done with
    | nil =>
      obtain ⟨rfl, -⟩ : b = a ∧ [] <+: as := by simpa using hdone
      cases Option.some.inj hexec
      exact ha
    | cons c done =>
      obtain ⟨rfl, -⟩ : c = a ∧ done ++ [b] <+: as := by simpa using hdone
      simp [hs] at hexec

theorem guarded_cons_iff {G : σ → α → Prop} {s : σ} {a : α} {as : List α} :
    Guarded step G s (a :: as) ↔ G s a ∧ ∀ s', step s a = some s' → Guarded step G s' as := by
  cases h : step s a with
  | none => simp [guarded_none h]
  | some s' => simp [guarded_cons h]

theorem Guarded.imp {G G' : σ → α → Prop} (h : ∀ s a, G s a → G' s a) {s : σ} {as : List α}
    (hG : Guarded step G s as) : Guarded step G' s as :=
  fun done a s' hdone hexec => h s' a (hG done a s' hdone hexec)

variable (step) in
/-- Run the actions and test the guard before each of them. -/
def checkGuard (G : σ → α → Prop) [∀ s a, Decidable (G s a)] : σ → List α → Bool
  | _, [] => true
  | s, a :: as => decide (G s a) && (step s a).all fun s' => checkGuard G s' as

theorem guarded_of_check {G : σ → α → Prop} [∀ s a, Decidable (G s a)] {s : σ} {as : List α}
    (h : checkGuard step G s as = true) : Guarded step G s as := by
  induction as generalizing s with
  | nil => exact guarded_nil
  | cons a as ih =>
    rw [checkGuard, Bool.and_eq_true, decide_eq_true_iff] at h
    rw [guarded_cons_iff]
    refine ⟨h.1, fun s' hs => ih ?_⟩
    have hrest := h.2
    rwa [hs, Option.all_some] at hrest

/-- Along guarded steps an invariant holds in every state reached. -/
theorem always_of_guarded {I : σ → Prop} {G : σ → α → Prop}
    (hstep : ∀ s a s', I s → G s a → step s a = some s' → I s')
    {s : σ} {as : List α} (hs : I s) (hG : Guarded step G s as) : Always step I s as := by
  induction as generalizing s with
  | nil =>
    intro done t hdone hexec
    obtain rfl : done = [] := by simpa using hdone
    cases Option.some.inj hexec
    exact hs
  | cons a as ih =>
    cases h : step s a with
    | none => exact (always_none h).2 hs
    | some s' => exact (always_cons h).2 ⟨hs, ih (hstep s a s' hs hG.head h) (hG.tail h)⟩

theorem Always.imp {P Q : σ → Prop} (h : ∀ s, P s → Q s) {s : σ} {as : List α}
    (hP : Always step P s as) : Always step Q s as :=
  fun done s' hdone hexec => h s' (hP done s' hdone hexec)

/-- Where the guarded steps are also defined, so is the whole run. -/
theorem exec_of_guarded {I : σ → Prop} {G : σ → α → Prop}
    (hstep : ∀ s a, I s → G s a → ∃ s', step s a = some s' ∧ I s')
    {s : σ} {as : List α} (hs : I s) (hG : Guarded step G s as) :
    ∃ s', exec step s as = some s' ∧ I s' := by
  induction as generalizing s with
  | nil => exact ⟨s, rfl, hs⟩
  | cons a as ih =>
    obtain ⟨s', h, hs'⟩ := hstep s a hs hG.head
    obtain ⟨t, ht, hIt⟩ := ih hs' (hG.tail h)
    exact ⟨t, by simp [h, ht], hIt⟩

theorem always_of_defined {I : σ → Prop} {G : σ → α → Prop}
    (hstep : ∀ s a, I s → G s a → ∃ s', step s a = some s' ∧ I s')
    {s : σ} {as : List α} (hs : I s) (hG : Guarded step G s as) : Always step I s as := by
  refine always_of_guarded ?_ hs hG
  intro t a t' ht ha hta
  obtain ⟨t1, hta', ht1⟩ := hstep t a ht ha
  rw [hta] at hta'
  obtain rfl := Option.some.inj hta'
  exact ht1

/-- A guard that is sufficient for the invariant and necessary for the property
decides whether the property holds in every state of a run. The invariant may
count the actions already taken: `I n` is about states after `n` of them. -/
theorem always_iff_guarded {I : Nat → σ → Prop} {P : σ → Prop} {G : σ → α → Prop} (bound : Nat)
    (hP : ∀ n s, I n s → P s)
    (hstep : ∀ n s a s', n < bound → I n s → G s a → step s a = some s' → I (n + 1) s')
    (hneeds : ∀ n s a s', n < bound → I n s → step s a = some s' → P s' → G s a)
    (hdefined : ∀ n s a, I n s → step s a = none → G s a)
    {n : Nat} {s : σ} {as : List α} (hs : I n s) (hlen : n + as.length ≤ bound) :
    Always step P s as ↔ Guarded step G s as := by
  induction as generalizing n s with
  | nil =>
    refine ⟨fun _ => guarded_nil, fun _ done t hdone hexec => ?_⟩
    obtain rfl : done = [] := by simpa using hdone
    cases Option.some.inj hexec
    exact hP n s hs
  | cons a as ih =>
    simp only [List.length_cons] at hlen
    cases h : step s a with
    | none =>
      rw [always_none h, guarded_none h]
      exact ⟨fun _ => hdefined n s a hs h, fun _ => hP n s hs⟩
    | some s' =>
      rw [always_cons h, guarded_cons h]
      constructor
      · rintro ⟨-, hlater⟩
        have hs'P : P s' := hlater [] s' (by simp) rfl
        have hG : G s a := hneeds n s a s' (by omega) hs h hs'P
        exact ⟨hG, (ih (hstep n s a s' (by omega) hs hG h) (by omega)).1 hlater⟩
      · rintro ⟨hG, hlater⟩
        exact ⟨hP n s hs, (ih (hstep n s a s' (by omega) hs hG h) (by omega)).2 hlater⟩

end VgEngine.Run
