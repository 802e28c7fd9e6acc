import Mathlib.Data.List.MinMax
import Mathlib.Data.List.Nodup

/-! Eviction of the least recently used entries of a list, where the entry with the
newest stamp stays whatever happens. -/
namespace VgEngine.Lru

variable {α : Type*} (stamp : α → Nat) (clock : Nat)

/-- The entry that goes next: the oldest but the one stamped last. -/
def victim (l : List α) : Option α :=
  (l.filter fun x => stamp x ≠ clock).argmin stamp

variable {stamp clock} {l : List α} {x : α}

theorem mem_of_victim (h : victim stamp clock l = some x) : x ∈ l ∧ stamp x ≠ clock := by
  have hmem := List.argmin_mem (Option.mem_def.2 h)
  simpa using hmem

theorem stamp_of_victim_none (h : victim stamp clock l = none) (hx : x ∈ l) : stamp x = clock := by
  unfold victim at h
  rw [List.argmin_eq_none, List.filter_eq_nil_iff] at h
  simpa using h x hx

/-- Nothing in the list is older than the victim. -/
theorem victim_le {y : α} (hclock : ∀ z ∈ l, stamp z ≤ clock)
    (h : victim stamp clock l = some x) (hy : y ∈ l) : stamp x ≤ stamp y := by
  obtain ⟨hx, -⟩ := mem_of_victim h
  by_cases hne : stamp y = clock
  · rw [hne]
    exact hclock x hx
  · apply List.le_of_mem_argmin (l := l.filter fun z => stamp z ≠ clock)
    · simpa using ⟨hy, hne⟩
    · exact h

variable [DecidableEq α]

theorem mem_erase_victim {y : α} (hstamps : (l.map stamp).Nodup) (hclock : ∀ z ∈ l, stamp z ≤ clock)
    (h : victim stamp clock l = some x) : y ∈ l.erase x ↔ y ∈ l ∧ stamp x < stamp y := by
  rw [hstamps.of_map.mem_erase_iff]
  constructor
  · rintro ⟨hne, hy⟩
    refine ⟨hy, lt_of_le_of_ne (victim_le hclock h hy) fun heq => hne ?_⟩
    exact List.inj_on_of_nodup_map hstamps hy (mem_of_victim h).1 heq.symm
  · rintro ⟨hy, hlt⟩
    refine ⟨?_, hy⟩
    rintro rfl
    exact absurd hlt (lt_irrefl _)

/-- Beyond the victim's stamp, the list and what the victim leaves of it are the same. -/
theorem filter_erase_victim {t : Nat} (hstamps : (l.map stamp).Nodup)
    (h : victim stamp clock l = some x) (ht : stamp x < t) :
    (l.erase x).filter (fun y => t ≤ stamp y) = l.filter fun y => t ≤ stamp y := by
  rw [hstamps.of_map.erase_eq_filter, List.filter_filter]
  apply List.filter_congr
  intro y hy
  by_cases hle : t ≤ stamp y
  · have hne : y ≠ x := by
      rintro rfl
      omega
    simp [hle, hne]
  · simp [hle]

variable (stamp clock) in
/-- Entries go one by one, the oldest first, until the rest fits; `n` bounds their number. -/
def evict (fits : List α → Prop) [DecidablePred fits] : Nat → List α → List α
  | 0, l => l
  | n + 1, l =>
    if fits l then l
    else match victim stamp clock l with
      | none => l
      | some x => evict fits n (l.erase x)

variable {fits : List α → Prop} [DecidablePred fits]

/-- An entry stays exactly when it is the newest, or the entries that are not older than
some bound up to its own stamp fit. -/
theorem mem_evict {n : Nat} (hstamps : (l.map stamp).Nodup) (hclock : ∀ z ∈ l, stamp z ≤ clock)
    (hn : l.length ≤ n) : x ∈ evict stamp clock fits n l ↔
      x ∈ l ∧ (stamp x = clock ∨ ∃ t ≤ stamp x, fits (l.filter fun y => t ≤ stamp y)) := by
  induction n generalizing l with
  | zero =>
    rw [List.length_eq_zero_iff.1 (Nat.le_zero.1 hn)]
    simp [evict]
  | succ n ih =>
    unfold evict
    split
    · rename_i hfits
      refine ⟨fun hx => ⟨hx, Or.inr ⟨0, Nat.zero_le _, ?_⟩⟩, And.left⟩
      simpa using hfits
    · rename_i hfits
      split
      · rename_i hnone
        exact ⟨fun hx => ⟨hx, Or.inl (stamp_of_victim_none hnone hx)⟩, And.left⟩
      · rename_i v hv
        have hlength : (l.erase v).length ≤ n := by
          rw [List.length_erase_of_mem (mem_of_victim hv).1]
          omega
        have hsub : ((l.erase v).map stamp).Nodup :=
          hstamps.sublist (List.erase_sublist.map stamp)
        rw [ih hsub (fun z hz => hclock z (List.mem_of_mem_erase hz)) hlength,
          mem_erase_victim hstamps hclock hv]
        constructor
        · rintro ⟨⟨hx, hlt⟩, hnewest | ⟨t, ht, hfit⟩⟩
          · exact ⟨hx, Or.inl hnewest⟩
          · refine ⟨hx, Or.inr ⟨max t (stamp v + 1), by omega, ?_⟩⟩
            rw [← filter_erase_victim hstamps hv (t := max t (stamp v + 1)) (by omega)]
            convert hfit using 1
            apply List.filter_congr
            intro y hy
            have hy' := ((mem_erase_victim hstamps hclock hv).1 hy).2
            simp
            omega
        · rintro ⟨hx, hnewest | ⟨t, ht, hfit⟩⟩
          · have hle := victim_le hclock hv hx
            have hne := (mem_of_victim hv).2
            exact ⟨⟨hx, by omega⟩, Or.inl hnewest⟩
          · have hlt : stamp v < t := by
              by_contra hle
              apply hfits
              convert hfit using 1
              rw [List.filter_eq_self.2]
              intro y hy
              have hy' := victim_le hclock hv hy
              simp
              omega
            refine ⟨⟨hx, by omega⟩, Or.inr ⟨t, ht, ?_⟩⟩
            rw [filter_erase_victim hstamps hv hlt]
            exact hfit

end VgEngine.Lru
