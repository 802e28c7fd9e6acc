import Mathlib.Order.Interval.Finset.Nat

/-! Items dealt in order to boxes, the same whole number of items to each box. -/
namespace VgEngine.Shares

/-- The items of a box: a whole share, but at least one. -/
def share (items boxes : Nat) : Nat := if items / boxes = 0 then 1 else items / boxes

/-- The items that come to a box. -/
def members (items size box : Nat) : Finset Nat := {i ∈ Finset.range items | i / size = box}

variable {items boxes : Nat}

theorem share_pos : 0 < share items boxes := by
  unfold share
  split
  · decide
  · apply Nat.pos_of_ne_zero
    assumption

theorem members_eq {size box : Nat} (hsize : 0 < size) (hfull : (box + 1) * size ≤ items) :
    members items size box = Finset.Ico (box * size) ((box + 1) * size) := by
  ext i
  rw [members, Finset.mem_filter, Finset.mem_range, Finset.mem_Ico, Nat.div_eq_iff hsize]
  rw [Nat.add_mul, Nat.one_mul] at hfull ⊢
  omega

theorem share_of_dvd (hitems : 0 < items) (h : boxes ∣ items) : share items boxes * boxes = items := by
  unfold share
  have hdiv := Nat.div_mul_cancel h
  split
  · rename_i hzero
    rw [hzero, Nat.zero_mul] at hdiv
    omega
  · exact hdiv

theorem last_box (hitems : 0 < items) (hboxes : 0 < boxes) (h : boxes ∣ items) :
    (items - 1) / share items boxes = boxes - 1 := by
  have hpos : 0 < share items boxes := share_pos
  have hwhole := share_of_dvd hitems h
  rw [Nat.div_eq_iff hpos, Nat.sub_one_mul, Nat.mul_comm boxes, hwhole]
  have hle : share items boxes ≤ share items boxes * boxes := Nat.le_mul_of_pos_right _ hboxes
  omega

/-- Every item has a box and the boxes have equally many items, exactly when the number of
boxes divides the number of items. -/
theorem equal_shares_iff (hitems : 0 < items) (hboxes : 0 < boxes) :
    ((∀ i < items, i / share items boxes < boxes) ∧ ∀ b < boxes, ∀ c < boxes,
      (members items (share items boxes) b).card = (members items (share items boxes) c).card) ↔
    boxes ∣ items := by
  constructor
  · rintro ⟨hbelow, hequal⟩
    by_cases hfew : items / boxes = 0
    · -- fewer items than boxes: the first box has one, the last none
      have hlt : items < boxes := (Nat.div_eq_zero_iff_lt hboxes).1 hfew
      have hshare : share items boxes = 1 := by rw [share, if_pos hfew]
      have hfirst : 0 ∈ members items (share items boxes) 0 := by
        simp [members, hitems, hshare]
      have hcard := hequal 0 hboxes items hlt
      have hlast : members items (share items boxes) items = ∅ := by
        ext i
        simp only [members, hshare, Nat.div_one, Finset.mem_filter, Finset.mem_range,
          Finset.notMem_empty, iff_false]
        omega
      rw [hlast, Finset.card_empty, Finset.card_eq_zero] at hcard
      rw [hcard] at hfirst
      cases hfirst
    · -- the item after the last whole share has no box left
      have hshare : share items boxes = items / boxes := by rw [share, if_neg hfew]
      have hle : items / boxes * boxes ≤ items := Nat.div_mul_le_self items boxes
      rcases Nat.lt_or_eq_of_le hle with hlt | heq
      · have hbox := hbelow _ hlt
        rw [hshare, Nat.mul_div_cancel_left _ (Nat.pos_of_ne_zero hfew)] at hbox
        omega
      · exact Dvd.intro_left _ heq
  · intro hdvd
    have hwhole := share_of_dvd hitems hdvd
    have hcard (b : Nat) (hb : b < boxes) :
        (members items (share items boxes) b).card = share items boxes := by
      have hfull : (b + 1) * share items boxes ≤ items := by
        calc (b + 1) * share items boxes ≤ boxes * share items boxes := Nat.mul_le_mul_right _ hb
          _ = items := by rw [Nat.mul_comm, hwhole]
      rw [members_eq share_pos hfull, Nat.card_Ico, Nat.add_mul, Nat.one_mul]
      omega
    constructor
    · intro i hi
      apply Nat.div_lt_of_lt_mul
      rwa [hwhole]
    · intro b hb c hc
      rw [hcard b hb, hcard c hc]

end VgEngine.Shares
