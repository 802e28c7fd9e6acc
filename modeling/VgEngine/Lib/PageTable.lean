import Mathlib.Logic.Function.Basic
import Mathlib.Data.Option.Basic

/-! Tables of pages that are made, written in part and dropped. `Near` compares two tables that
the same writes have gone to, up to what one of them has lost or has got besides. -/
namespace VgEngine.Lib

/-- The pages by their index; a page is its cells. -/
abbrev PageTable (F : Type*) := Nat → Option (Nat → F)

namespace PageTable

variable {F : Type*}

section Pages

variable {T : PageTable F} {i j start len : Nat} {row : Nat → F}

def drop (i : Nat) (T : PageTable F) : PageTable F := Function.update T i none

/-- The cells of a range take the values of a row, if the page is there. -/
def put (i start len : Nat) (row : Nat → F) (T : PageTable F) : PageTable F :=
  Function.update T i
    ((T i).map fun page c => if start ≤ c ∧ c < start + len then row (c - start) else page c)

theorem drop_of_ne (h : j ≠ i) : drop i T j = T j := Function.update_of_ne h _ _

@[simp] theorem drop_self : drop i T i = none := Function.update_self _ _ _

theorem put_of_ne (h : j ≠ i) : put i start len row T j = T j := Function.update_of_ne h _ _

@[simp] theorem put_isSome : (put i start len row T j).isSome = (T j).isSome := by
  by_cases h : j = i
  · subst h
    simp [put]
  · rw [put_of_ne h]

end Pages

variable [Zero F]

/-- A page of zeros where there is none. -/
def ensure (i : Nat) (T : PageTable F) : PageTable F :=
  Function.update T i (some ((T i).getD fun _ => 0))

/-- A cell, which is zero as long as its page is missing. -/
def cell (T : PageTable F) (i c : Nat) : F := (T i).elim 0 fun page => page c

section Cells

variable {T : PageTable F} {i j c start len : Nat} {row : Nat → F}

theorem ensure_of_ne (h : j ≠ i) : ensure i T j = T j := Function.update_of_ne h _ _

theorem ensure_of_some (h : (T i).isSome = true) : ensure i T = T := by
  obtain ⟨page, hpage⟩ := Option.isSome_iff_exists.1 h
  unfold ensure
  rw [hpage, Option.getD_some, ← hpage, Function.update_eq_self]

@[simp] theorem ensure_self_isSome : (ensure i T i).isSome = true := by simp [ensure]

theorem cell_of_eq {T' : PageTable F} (h : T i = T' i) : cell T i c = cell T' i c := by
  unfold cell
  rw [h]

@[simp] theorem cell_ensure : cell (ensure i T) j c = cell T j c := by
  by_cases h : j = i
  · subst h
    cases hpage : T j <;> simp [cell, ensure, hpage]
  · exact cell_of_eq (ensure_of_ne h)

/-- A row that is put where there is a page can be read back. -/
theorem cell_put_inside (hpage : (T i).isSome = true) (hlow : start ≤ c) (hhigh : c < start + len) :
    cell (put i start len row T) i c = row (c - start) := by
  obtain ⟨page, hpage⟩ := Option.isSome_iff_exists.1 hpage
  simp [cell, put, hpage, hlow, hhigh]

theorem cell_put_outside (h : ¬ (j = i ∧ start ≤ c ∧ c < start + len)) :
    cell (put i start len row T) j c = cell T j c := by
  by_cases hj : j = i
  · subst hj
    have hout : ¬ (start ≤ c ∧ c < start + len) := fun hin => h ⟨rfl, hin⟩
    cases hpage : T j with
    | none => simp [cell, put, hpage]
    | some page => simp [cell, put, hpage, hout]
  · exact cell_of_eq (put_of_ne hj)

end Cells

section Near

variable {T T' T'' : PageTable F} {lost lost' extra extra' : Nat → Prop}
variable {loose loose' : Nat → Nat → Prop} {i start len : Nat} {row : Nat → F}

/-- Nothing is known of the pages that are lost. Of the others, the second table has none but those
of the first, the first has none but those of the second and the extra ones, and they differ at
most in loose cells. -/
structure Near (lost extra : Nat → Prop) (loose : Nat → Nat → Prop) (T T' : PageTable F) :
    Prop where
  held : ∀ i, ¬ lost i → (T' i).isSome = true → (T i).isSome = true
  own : ∀ i, ¬ lost i → ¬ extra i → (T i).isSome = true → (T' i).isSome = true
  cells : ∀ i, ¬ lost i → ∀ c, ¬ loose i c → cell T i c = cell T' i c

theorem Near.refl (T : PageTable F) : Near lost extra loose T T :=
  ⟨fun _ _ h => h, fun _ _ _ h => h, fun _ _ _ _ => rfl⟩

theorem Near.mono (h : Near lost extra loose T T') (hlost : ∀ i, lost i → lost' i)
    (hextra : ∀ i, extra i → extra' i) (hloose : ∀ i c, loose i c → loose' i c) :
    Near lost' extra' loose' T T' := by
  constructor
  case held => exact fun i hi => h.held i fun hl => hi (hlost i hl)
  case own => exact fun i hi hx => h.own i (fun hl => hi (hlost i hl)) fun he => hx (hextra i he)
  case cells =>
    exact fun i hi c hc => h.cells i (fun hl => hi (hlost i hl)) c fun hl => hc (hloose i c hl)

theorem Near.trans (h : Near lost extra loose T T') (h' : Near lost' extra' loose' T' T'') :
    Near (fun i => lost i ∨ lost' i) (fun i => extra i ∨ extra' i)
      (fun i c => loose i c ∨ loose' i c) T T'' := by
  constructor
  case held =>
    intro i hi hpage
    obtain ⟨hl, hl'⟩ := not_or.1 hi
    exact h.held i hl (h'.held i hl' hpage)
  case own =>
    intro i hi hx hpage
    obtain ⟨hl, hl'⟩ := not_or.1 hi
    obtain ⟨he, he'⟩ := not_or.1 hx
    exact h'.own i hl' he' (h.own i hl he hpage)
  case cells =>
    intro i hi c hc
    obtain ⟨hl, hl'⟩ := not_or.1 hi
    obtain ⟨ho, ho'⟩ := not_or.1 hc
    exact (h.cells i hl c ho).trans (h'.cells i hl' c ho')

theorem drop_near : Near (· = i) (fun _ => False) (fun _ _ => False) (drop i T) T := by
  constructor
  case held => exact fun j hj hpage => by rwa [drop_of_ne hj]
  case own => exact fun j hj _ hpage => by rwa [drop_of_ne hj] at hpage
  case cells => exact fun j hj c _ => cell_of_eq (drop_of_ne hj)

theorem ensure_near : Near (fun _ => False) (· = i) (fun _ _ => False) (ensure i T) T := by
  constructor
  case held =>
    intro j _ hpage
    by_cases hj : j = i
    · rw [hj]
      exact ensure_self_isSome
    · rwa [ensure_of_ne hj]
  case own => exact fun j _ hj hpage => by rwa [ensure_of_ne hj] at hpage
  case cells => exact fun j _ c _ => cell_ensure

theorem put_near : Near (fun _ => False) (fun _ => False)
    (fun j c => j = i ∧ start ≤ c ∧ c < start + len) (put i start len row T) T := by
  constructor
  case held => exact fun j _ hpage => by rwa [put_isSome]
  case own => exact fun j _ _ hpage => by rwa [put_isSome] at hpage
  case cells => exact fun j _ c hc => cell_put_outside hc

/-- A page that is dropped from both is no longer lost. -/
theorem Near.drop (h : Near lost extra loose T T') :
    Near (fun j => lost j ∧ j ≠ i) extra loose (drop i T) (drop i T') := by
  constructor
  case held =>
    intro j hj hpage
    by_cases hji : j = i
    · rw [hji, drop_self] at hpage
      cases hpage
    · rw [drop_of_ne hji] at hpage ⊢
      exact h.held j (fun hl => hj ⟨hl, hji⟩) hpage
  case own =>
    intro j hj hx hpage
    by_cases hji : j = i
    · rw [hji, drop_self] at hpage
      cases hpage
    · rw [drop_of_ne hji] at hpage ⊢
      exact h.own j (fun hl => hj ⟨hl, hji⟩) hx hpage
  case cells =>
    intro j hj c hc
    by_cases hji : j = i
    · rw [hji]
      exact cell_of_eq (by rw [drop_self, drop_self])
    · rw [cell_of_eq (drop_of_ne hji), cell_of_eq (drop_of_ne hji)]
      exact h.cells j (fun hl => hj ⟨hl, hji⟩) c hc

/-- Where both have a page, it is not extra. -/
theorem Near.ensure (h : Near lost extra loose T T') :
    Near lost (fun j => extra j ∧ j ≠ i) loose (ensure i T) (ensure i T') := by
  constructor
  case held =>
    intro j hj hpage
    by_cases hji : j = i
    · rw [hji]
      exact ensure_self_isSome
    · rw [ensure_of_ne hji] at hpage ⊢
      exact h.held j hj hpage
  case own =>
    intro j hj hx hpage
    by_cases hji : j = i
    · rw [hji]
      exact ensure_self_isSome
    · rw [ensure_of_ne hji] at hpage ⊢
      exact h.own j hj (fun he => hx ⟨he, hji⟩) hpage
  case cells =>
    intro j hj c hc
    rw [cell_ensure, cell_ensure]
    exact h.cells j hj c hc

/-- The cells that both take from one row are no longer loose. -/
theorem Near.put (h : Near lost extra loose T T') (hpage : (T i).isSome = true)
    (hpage' : (T' i).isSome = true) :
    Near lost extra (fun j c => loose j c ∧ ¬ (j = i ∧ start ≤ c ∧ c < start + len))
      (put i start len row T) (put i start len row T') := by
  constructor
  case held =>
    intro j hj hsome
    rw [put_isSome] at hsome ⊢
    exact h.held j hj hsome
  case own =>
    intro j hj hx hsome
    rw [put_isSome] at hsome ⊢
    exact h.own j hj hx hsome
  case cells =>
    intro j hj c hc
    by_cases hin : j = i ∧ start ≤ c ∧ c < start + len
    · obtain ⟨rfl, hlow, hhigh⟩ := hin
      rw [cell_put_inside hpage hlow hhigh, cell_put_inside hpage' hlow hhigh]
    · rw [cell_put_outside hin, cell_put_outside hin]
      exact h.cells j hj c fun hl => hc ⟨hl, hin⟩

/-- A reader of the table sees the same. -/
theorem Near.read (h : Near lost extra loose T T') {c : Nat} (hlost : ¬ lost i)
    (hextra : ¬ extra i) (hloose : ¬ loose i c) :
    (T i).map (fun page => page c) = (T' i).map fun page => page c := by
  have hheld := h.held i hlost
  have hown := h.own i hlost hextra
  have hcell := h.cells i hlost c hloose
  unfold cell at hcell
  cases hT : T i with
  | none =>
    cases hT' : T' i with
    | none => rfl
    | some page' => simp [hT, hT'] at hheld
  | some page =>
    cases hT' : T' i with
    | none => simp [hT, hT'] at hown
    | some page' => simpa [hT, hT'] using hcell

end Near

end PageTable

end VgEngine.Lib
