import VgEngine.Lib.Logged
import Mathlib.Algebra.BigOperators.Group.Finset.Basic
import Mathlib.Algebra.BigOperators.Intervals

/-! Loops over the cells of buffers. Each load is logged with what it is for, so that what a loop
reads out of a buffer that it also writes can be stated. -/
namespace VgEngine.Lib

/-- The cells of each buffer. -/
abbrev Buffers (B α : Type) := B → Nat → α

structure Load (P B α : Type) where
  purpose : P
  buffer : B
  index : Nat
  value : α

namespace Logged

section Runs

variable {σ ε : Type*} {α β : Type} {Q : ε → Prop} {c : Logged σ ε α} {f : α → Logged σ ε β}
variable {s s' s'' : σ} {a : α} {b : β}

/-- The computation ends with a value in a state, and all that it logs has the property. -/
def Runs (Q : ε → Prop) (c : Logged σ ε α) (s : σ) (a : α) (s' : σ) : Prop :=
  (c s).1 = (a, s') ∧ ∀ e ∈ (c s).2, Q e

theorem Runs.pure : Runs Q (Pure.pure a : Logged σ ε α) s a s := by
  constructor
  · rfl
  · intro e he
    cases he

theorem Runs.get {σ : Type} {ε : Type*} {Q : ε → Prop} {s : σ} :
    Runs Q (Logged.get : Logged σ ε σ) s s s := by
  constructor
  · rfl
  · intro e he
    cases he

theorem Runs.bind (h : Runs Q c s a s') (hf : Runs Q (f a) s' b s'') :
    Runs Q (c >>= f) s b s'' := by
  obtain ⟨hvalue, hlog⟩ := h
  obtain ⟨hvalue', hlog'⟩ := hf
  constructor
  · simp [hvalue, hvalue']
  · intro e he
    simp only [bind_log, hvalue, List.mem_append] at he
    cases he with
    | inl he => exact hlog e he
    | inr he => exact hlog' e he

end Runs

end Logged

namespace Buffers

variable {P B α β : Type}

section Fill

variable [DecidableEq B]

/-- The first `n` cells of a buffer replaced. -/
def fill (m : Buffers B α) (b : B) (n : Nat) (val : Nat → α) : Buffers B α :=
  Function.update m b fun j => if j < n then val j else m b j

variable {m : Buffers B α} {b c : B} {n j : Nat} {val : Nat → α}

@[simp] theorem fill_of_ne (h : c ≠ b) : m.fill b n val c = m c := by
  simp [fill, h]

@[simp] theorem fill_apply (h : j < n) : m.fill b n val b j = val j := by
  simp [fill, h]

theorem fill_succ (v : α) (hv : v = val n) :
    Function.update (m.fill b n val) b (Function.update (m.fill b n val b) n v) =
      m.fill b (n + 1) val := by
  subst hv
  funext c j
  by_cases hc : c = b
  · subst hc
    by_cases hj : j = n
    · simp [fill, hj]
    · have hlt : j ≤ n ↔ j < n := by omega
      simp [fill, hj, hlt]
  · simp [fill, hc]

end Fill

/-- `b[i]` -/
def load (p : P) (b : B) (i : Nat) : Logged (Buffers B α) (Load P B α) α := do
  let m ← Logged.get
  Logged.log ⟨p, b, i, m b i⟩
  pure (m b i)

/-- `b[i] = v` -/
def store [DecidableEq B] (b : B) (i : Nat) (v : α) : Logged (Buffers B α) (Load P B α) Unit :=
  Logged.modify fun m => Function.update m b (Function.update (m b) i v)

/-- `for (i = 0; i < n; ++i)` around a body that carries a value. -/
def loop (f : Nat → β → Logged (Buffers B α) (Load P B α) β) :
    Nat → β → Logged (Buffers B α) (Load P B α) β
  | 0, b => pure b
  | n + 1, b => do
    let b ← loop f n b
    f n b

/-- A loop that stores a cell in each pass. -/
def each [DecidableEq B] (b : B) (n : Nat) (f : Nat → Logged (Buffers B α) (Load P B α) α) :
    Logged (Buffers B α) (Load P B α) Unit :=
  loop (fun i _ => do
    let v ← f i
    store b i v) n ()

/-- A loop that adds a term in each pass. -/
def total [Add α] [Zero α] (n : Nat) (f : Nat → Logged (Buffers B α) (Load P B α) α) :
    Logged (Buffers B α) (Load P B α) α :=
  loop (fun i acc => do
    let v ← f i
    pure (acc + v)) n 0

section Loops

variable {Q : Load P B α → Prop} {m : Buffers B α} {b : B} {n i : Nat} {v : α} {p : P}

theorem runs_load (hv : m b i = v) (hQ : Q ⟨p, b, i, v⟩) :
    Logged.Runs Q (load p b i) m v m := by
  subst hv
  constructor
  · rfl
  · intro e he
    obtain rfl := List.mem_singleton.mp he
    exact hQ

theorem runs_store [DecidableEq B] : Logged.Runs Q (store b i v : Logged (Buffers B α) (Load P B α) Unit) m ()
    (Function.update m b (Function.update (m b) i v)) := by
  constructor
  · rfl
  · intro e he
    cases he

/-- The value that a loop carries and the buffers, pass by pass. -/
theorem runs_loop {f : Nat → β → Logged (Buffers B α) (Load P B α) β} {acc : Nat → β}
    {mem : Nat → Buffers B α}
    (h : ∀ i < n, Logged.Runs Q (f i (acc i)) (mem i) (acc (i + 1)) (mem (i + 1))) :
    Logged.Runs Q (loop f n (acc 0)) (mem 0) (acc n) (mem n) := by
  induction n with
  | zero => exact .pure
  | succ n ih => exact (ih fun i hi => h i (Nat.lt_succ_of_lt hi)).bind (h n (Nat.lt_succ_self n))

/-- A loop that adds up leaves the buffers as they are. -/
theorem runs_total [AddCommMonoid α] {f : Nat → Logged (Buffers B α) (Load P B α) α}
    {val : Nat → α} (h : ∀ i < n, Logged.Runs Q (f i) m (val i) m) :
    Logged.Runs Q (total n f) m (∑ i ∈ Finset.range n, val i) m := by
  have hpass (i : Nat) (hi : i < n) : Logged.Runs Q
      ((fun i acc => do let v ← f i; pure (acc + v)) i (∑ k ∈ Finset.range i, val k)) m
      (∑ k ∈ Finset.range (i + 1), val k) m := by
    rw [Finset.sum_range_succ]
    exact (h i hi).bind .pure
  exact @runs_loop P B α α Q n _ (fun i => ∑ k ∈ Finset.range i, val k) (fun _ => m) hpass

variable [DecidableEq B] {val : Nat → α}

theorem fill_zero : m.fill b 0 val = m := by
  simp [fill]

theorem fill_cell (c : B) : m.fill b i val c i = m c i := by
  by_cases hc : c = b
  · simp [fill, hc]
  · simp [hc]

/-- A pass may read its own cell of the buffer that the loop fills, and all of the others. -/
theorem runs_each {f : Nat → Logged (Buffers B α) (Load P B α) α}
    (h : ∀ i < n, ∀ m' : Buffers B α, (∀ c ≠ b, m' c = m c) → (∀ c, m' c i = m c i) →
      Logged.Runs Q (f i) m' (val i) m') :
    Logged.Runs Q (each b n f) m () (m.fill b n val) := by
  have hpass (i : Nat) (hi : i < n) : Logged.Runs Q
      ((fun i (_ : Unit) => do let v ← f i; store b i v) i ()) (m.fill b i val) ()
      (m.fill b (i + 1) val) := by
    have hcell := h i hi (m.fill b i val) (fun c hc => fill_of_ne hc) fill_cell
    rw [← fill_succ (val i) rfl]
    exact hcell.bind runs_store
  have hloop := @runs_loop P B α Unit Q n (fun i _ => do let v ← f i; store b i v) (fun _ => ())
    (fun i => m.fill b i val) hpass
  rwa [fill_zero] at hloop

/-- A loop that fills a buffer and adds up what it stores. -/
theorem runs_fill_total [AddCommMonoid α] {f : Nat → α → Logged (Buffers B α) (Load P B α) α}
    (h : ∀ i < n, ∀ acc, Logged.Runs Q (f i acc) (m.fill b i val) (acc + val i)
      (m.fill b (i + 1) val)) :
    Logged.Runs Q (loop f n 0) m (∑ i ∈ Finset.range n, val i) (m.fill b n val) := by
  have hpass (i : Nat) (hi : i < n) : Logged.Runs Q (f i (∑ k ∈ Finset.range i, val k))
      (m.fill b i val) (∑ k ∈ Finset.range (i + 1), val k) (m.fill b (i + 1) val) := by
    rw [Finset.sum_range_succ]
    exact h i hi _
  have hloop := @runs_loop P B α α Q n _ (fun i => ∑ k ∈ Finset.range i, val k)
    (fun i => m.fill b i val) hpass
  rwa [fill_zero] at hloop

end Loops

end Buffers

end VgEngine.Lib
