import VgEngine.Lib.Keyed

/-! Eviction from a list: the idle entry with the oldest stamp goes first, and the next one only
while the rest does not fit. -/
namespace VgEngine.Eviction

open Keyed

variable {α : Type*} (idle : α → Prop) (stamp : α → Nat) (fits : List α → Prop)

/-- Eviction turns the first list into the second. -/
inductive Evicts : List α → List α → Prop
  | fit {l : List α} (hfits : fits l) : Evicts l l
  | busy {l : List α} (hbusy : ∀ x ∈ l, ¬ idle x) : Evicts l l
  | oldest {l l' : List α} {i : Nat} {x : α} (hover : ¬ fits l) (hx : l[i]? = some x) (hidle : idle x)
    (holdest : ∀ y ∈ l, idle y → stamp x ≤ stamp y) (hrest : Evicts (l.eraseIdx i) l') : Evicts l l'

variable [DecidablePred idle] [DecidablePred fits]

/-- The entries that are there when the turn of `x` comes. -/
def atTurn (l : List α) (x : α) : List α := l.filter fun y => ¬ (idle y ∧ stamp y < stamp x)

/-- An entry is spared if it is busy, or if all fits when its turn comes. -/
def Spared (l : List α) (x : α) : Prop := ¬ idle x ∨ fits (atTurn idle stamp l x)

instance (l : List α) : DecidablePred (Spared idle stamp fits l) := fun _ =>
  inferInstanceAs (Decidable (_ ∨ _))

variable {idle stamp fits} {l l' : List α}

omit [DecidablePred idle] [DecidablePred fits] in
/-- Eviction ends when all fits, or when nothing is idle. -/
theorem Evicts.ends (h : Evicts idle stamp fits l l') : fits l' ∨ ∀ x ∈ l', ¬ idle x := by
  induction h with
  | fit hfits => exact Or.inl hfits
  | busy hbusy => exact Or.inr hbusy
  | oldest _ _ _ _ _ ih => exact ih

omit [DecidablePred idle] [DecidablePred fits] in
theorem Evicts.sublist (h : Evicts idle stamp fits l l') : l'.Sublist l := by
  induction h with
  | fit => exact List.Sublist.refl _
  | busy => exact List.Sublist.refl _
  | oldest _ _ _ _ _ ih => exact ih.trans (List.eraseIdx_sublist _ _)

omit [DecidablePred fits] in
/-- The oldest idle entry is gone when the turn of another one comes. -/
theorem atTurn_eraseIdx {i : Nat} {x y : α} (hstamps : (l.map stamp).Nodup) (hx : l[i]? = some x)
    (hidle : idle x) (hlt : stamp x < stamp y) :
    atTurn idle stamp (l.eraseIdx i) y = atTurn idle stamp l y := by
  unfold atTurn
  rw [eraseIdx_eq_filter hstamps hx, List.filter_filter]
  apply List.filter_congr
  intro z hz
  by_cases hsame : stamp z = stamp x
  · obtain rfl : z = x :=
      List.inj_on_of_nodup_map hstamps hz (List.mem_of_getElem? hx) hsame
    simp [hidle, hlt]
  · simp [hsame]

/-- What is left are the entries that are spared. -/
theorem Evicts.eq_filter (h : Evicts idle stamp fits l l') (hstamps : (l.map stamp).Nodup)
    (hmono : ∀ a b : List α, a.Sublist l → b.Sublist a → fits a → fits b) :
    l' = l.filter (Spared idle stamp fits l) := by
  induction h with
  | @fit l hfits =>
    symm
    rw [List.filter_eq_self]
    intro x _
    exact decide_eq_true (Or.inr (hmono l _ (List.Sublist.refl l) List.filter_sublist hfits))
  | busy hbusy =>
    symm
    rw [List.filter_eq_self]
    exact fun x hx => decide_eq_true (Or.inl (hbusy x hx))
  | @oldest l l' i x hover hx hidle holdest _ ih =>
    have hsub : (l.eraseIdx i).Sublist l := List.eraseIdx_sublist l i
    rw [ih (hstamps.sublist (hsub.map stamp)) fun a b ha => hmono a b (ha.trans hsub)]
    rw [eraseIdx_eq_filter hstamps hx, List.filter_filter]
    apply List.filter_congr
    intro y hy
    rw [← eraseIdx_eq_filter hstamps hx]
    by_cases hsame : stamp y = stamp x
    · -- the entry that went: nothing had gone before it, and all did not fit
      obtain rfl : y = x := List.inj_on_of_nodup_map hstamps hy (List.mem_of_getElem? hx) hsame
      have hall : atTurn idle stamp l y = l := by
        apply List.filter_eq_self.2
        intro z hz
        apply decide_eq_true
        rintro ⟨hz', hlt⟩
        exact absurd (holdest z hz hz') (Nat.not_le.2 hlt)
      have hgone : ¬ Spared idle stamp fits l y := by
        rintro (hbusy | hfits)
        · exact hbusy hidle
        · exact hover (hall ▸ hfits)
      simp [hgone]
    · have hspared : Spared idle stamp fits (l.eraseIdx i) y ↔ Spared idle stamp fits l y := by
        unfold Spared
        by_cases hidley : idle y
        · have hlt : stamp x < stamp y := Nat.lt_of_le_of_ne (holdest y hy hidley) (Ne.symm hsame)
          rw [atTurn_eraseIdx hstamps hx hidle hlt]
        · simp [hidley]
      simp [hspared, hsame]

end VgEngine.Eviction
