import VgEngine.TensorSource.Model
import VgEngine.Lib.Eviction

/-! Which entries `evict_for` leaves in the cache: those that are spared, oldest first. -/
namespace VgEngine.TensorSource
open Eviction

variable {st : State} {entries : List CacheEntry} {e : CacheEntry} {need : Nat}

/-- The entries that the search for a victim looks at. -/
def Idle (e : CacheEntry) : Prop := e.owns = true ∧ e.refs = 0 ∧ e.age < 2 ^ 64 - 1

instance : DecidablePred Idle := fun _ => inferInstanceAs (Decidable (_ ∧ _))

/-- `evict_for` stops at these entries. -/
def Fits (s : Source) (need : Nat) (entries : List CacheEntry) : Prop :=
  overBudget { s with entries := entries } need = false

instance (s : Source) (need : Nat) : DecidablePred (Fits s need) := fun _ =>
  inferInstanceAs (Decidable (_ = false))

/-- `evict_for` leaves the entry in the cache: nothing is evicted without a host budget, and an
entry is evicted only while it is idle and what is not older does not fit. -/
def SparedFor (s : Source) (need : Nat) (e : CacheEntry) : Prop :=
  s.cfg.hostBudgetBytes = 0 ∨ Spared Idle CacheEntry.age (Fits s need) s.entries e

instance (s : Source) (need : Nat) : DecidablePred (SparedFor s need) := fun _ =>
  inferInstanceAs (Decidable (_ ∨ _))

/-- The entries that `evict_for` leaves. -/
def Source.spared (s : Source) (need : Nat) : List CacheEntry :=
  s.entries.filter (SparedFor s need)

section Search

/-- The search keeps what it has, or finds the oldest entry below its bound. -/
theorem victimFrom_spec (i age : Nat) (best : Option Nat) (entries : List CacheEntry) :
    (victimFrom i best age entries = best ∧
      ∀ e ∈ entries, ¬ (e.owns = true ∧ e.refs = 0 ∧ e.age < age)) ∨
    ∃ k e, victimFrom i best age entries = some (i + k) ∧ entries[k]? = some e ∧
      (e.owns = true ∧ e.refs = 0 ∧ e.age < age) ∧
      ∀ x ∈ entries, x.owns = true → x.refs = 0 → e.age ≤ x.age := by
  induction entries generalizing i age best with
  | nil => exact Or.inl ⟨rfl, fun e he => by cases he⟩
  | cons x entries ih =>
    unfold victimFrom
    by_cases hx : x.owns = true ∧ x.refs = 0 ∧ x.age < age
    · rw [if_pos hx]
      rcases ih (i + 1) x.age (some i) with ⟨hbest, hnone⟩ | ⟨k, e, hfound, he, hcand, holdest⟩
      · -- nothing after it is older
        refine Or.inr ⟨0, x, hbest, rfl, hx, ?_⟩
        intro y hy howns hrefs
        rcases List.mem_cons.1 hy with rfl | hy
        · exact le_refl _
        · by_contra hlt
          exact hnone y hy ⟨howns, hrefs, by omega⟩
      · refine Or.inr ⟨k + 1, e, ?_, by simpa using he, ⟨hcand.1, hcand.2.1, by omega⟩, ?_⟩
        · rw [hfound]
          congr 1
          omega
        · intro y hy howns hrefs
          rcases List.mem_cons.1 hy with rfl | hy
          · exact hcand.2.2.le
          · exact holdest y hy howns hrefs
    · rw [if_neg hx]
      rcases ih (i + 1) age best with ⟨hbest, hnone⟩ | ⟨k, e, hfound, he, hcand, holdest⟩
      · refine Or.inl ⟨hbest, ?_⟩
        intro y hy
        rcases List.mem_cons.1 hy with rfl | hy
        · exact hx
        · exact hnone y hy
      · refine Or.inr ⟨k + 1, e, ?_, by simpa using he, hcand, ?_⟩
        · rw [hfound]
          congr 1
          omega
        · intro y hy howns hrefs
          rcases List.mem_cons.1 hy with rfl | hy
          · by_contra hlt
            exact hx ⟨howns, hrefs, by omega⟩
          · exact holdest y hy howns hrefs

theorem victim_none (h : victim entries = none) : ∀ e ∈ entries, ¬ Idle e := by
  rcases victimFrom_spec 0 (2 ^ 64 - 1) none entries with ⟨-, hnone⟩ | ⟨k, e, hfound, -⟩
  · exact hnone
  · exact absurd (h.symm.trans hfound) (by simp)

theorem victim_some {i : Nat} (h : victim entries = some i) :
    ∃ e, entries[i]? = some e ∧ Idle e ∧ ∀ x ∈ entries, Idle x → e.age ≤ x.age := by
  rcases victimFrom_spec 0 (2 ^ 64 - 1) none entries with ⟨hnone, -⟩ | ⟨k, e, hfound, he, hcand, holdest⟩
  · exact absurd (h.symm.trans hnone) (by simp)
  · obtain rfl : i = k := by simpa using h.symm.trans hfound
    exact ⟨e, he, hcand, fun x hx hidle => holdest x hx hidle.1 hidle.2.1⟩

end Search

section Evict

/-- A removal changes the entries and the count of evictions. -/
theorem removeEntry_source (st : State) (i : Nat) : ∃ evictions,
    (removeEntry st i).source = { st.source with
      entries := st.source.entries.eraseIdx i
      stats := { st.source.stats with evictions := evictions } } := by
  unfold removeEntry
  split
  · rename_i hnone
    refine ⟨st.source.stats.evictions, ?_⟩
    rw [List.eraseIdx_of_length_le (List.getElem?_eq_none_iff.1 hnone)]
  · exact ⟨_, rfl⟩

theorem evictLoop_evicts (need fuel : Nat) (st : State) (hfuel : st.source.entries.length ≤ fuel) :
    ∃ left evictions, (evictLoop fuel need st).source = { st.source with
      entries := left, stats := { st.source.stats with evictions := evictions } } ∧
      Evicts Idle CacheEntry.age (Fits st.source need) st.source.entries left := by
  induction fuel generalizing st with
  | zero =>
    refine ⟨st.source.entries, st.source.stats.evictions, rfl, .busy ?_⟩
    rw [List.length_eq_zero_iff.1 (Nat.le_zero.1 hfuel)]
    simp
  | succ fuel ih =>
    unfold evictLoop
    split
    · rename_i hover
      split
      · rename_i hnone
        exact ⟨st.source.entries, st.source.stats.evictions, rfl, .busy (victim_none hnone)⟩
      · rename_i i hvictim
        obtain ⟨e, he, hidle, holdest⟩ := victim_some hvictim
        obtain ⟨removed, hremoved⟩ := removeEntry_source st i
        have hlt := (List.getElem?_eq_some_iff.1 he).1
        obtain ⟨left, evictions, hleft, hevicts⟩ := ih (removeEntry st i) (by
          rw [hremoved]
          dsimp only
          rw [List.length_eraseIdx_of_lt hlt]
          omega)
        refine ⟨left, evictions, ?_, .oldest ?_ he hidle holdest ?_⟩
        · rw [hleft, hremoved]
        · unfold Fits
          rw [hover]
          exact Bool.noConfusion
        · rw [hremoved] at hevicts
          exact hevicts
    · rename_i hfits
      refine ⟨st.source.entries, st.source.stats.evictions, rfl, .fit ?_⟩
      exact Bool.eq_false_iff.2 hfits

/-- Eviction drops entries and counts them. -/
theorem evictFor_source (st : State) (need : Nat) : ∃ left evictions,
    (evictFor st need).source = { st.source with
      entries := left, stats := { st.source.stats with evictions := evictions } } ∧
      left.Sublist st.source.entries := by
  unfold evictFor
  split
  · exact ⟨st.source.entries, st.source.stats.evictions, rfl, List.Sublist.refl _⟩
  · obtain ⟨left, evictions, hleft, hevicts⟩ := evictLoop_evicts need _ st (le_refl _)
    exact ⟨left, evictions, hleft, hevicts.sublist⟩

def totalBytes (entries : List CacheEntry) : Nat := (entries.map CacheEntry.bytes).sum

theorem totalBytes_sublist {a b : List CacheEntry} (h : a.Sublist b) :
    totalBytes a ≤ totalBytes b :=
  (h.map CacheEntry.bytes).sum_le_sum fun _ _ => Nat.zero_le _

/-- The sum that `resident_bytes` makes does not wrap. -/
theorem residentBytes_eq (hsmall : totalBytes entries < 2 ^ 64) :
    residentBytes entries = totalBytes (entries.filter CacheEntry.owns) := by
  apply Nat.mod_eq_of_lt
  exact Nat.lt_of_le_of_lt (totalBytes_sublist List.filter_sublist) hsmall

theorem fits_iff (s : Source) : Fits s need entries ↔
    residentBytes entries ≤ s.cfg.hostBudgetBytes ∧
      (need ≠ 0 → residentBytes entries ≤ sub64 s.cfg.hostBudgetBytes need) := by
  unfold Fits overBudget
  rw [decide_eq_false_iff_not, not_or, not_and]
  simp only [Nat.not_lt]

/-- With fewer entries all fits the more. -/
theorem fits_mono {s : Source} (hsmall : totalBytes entries < 2 ^ 64) (a b : List CacheEntry)
    (ha : a.Sublist entries) (hb : b.Sublist a) (h : Fits s need a) : Fits s need b := by
  have hle : residentBytes b ≤ residentBytes a := by
    have hsmalla := Nat.lt_of_le_of_lt (totalBytes_sublist ha) hsmall
    rw [residentBytes_eq hsmalla, residentBytes_eq (Nat.lt_of_le_of_lt (totalBytes_sublist hb) hsmalla)]
    exact totalBytes_sublist (hb.filter _)
  rw [fits_iff] at h ⊢
  exact ⟨hle.trans h.1, fun hneed => hle.trans (h.2 hneed)⟩

/-- Where all fits, all fits the host budget, and there is room for what is needed, unless that
alone is more than the budget. -/
theorem Fits.le {s : Source} (h : Fits s need entries) (howns : ∀ e ∈ entries, e.owns = true)
    (hsmall : totalBytes entries < 2 ^ 64) : totalBytes entries ≤ s.cfg.hostBudgetBytes ∧
      (need ≤ s.cfg.hostBudgetBytes → totalBytes entries + need ≤ s.cfg.hostBudgetBytes) := by
  rw [fits_iff, residentBytes_eq hsmall, List.filter_eq_self.2 howns] at h
  refine ⟨h.1, fun hneed => ?_⟩
  by_cases hzero : need = 0
  · rw [hzero]
    exact h.1
  · have hroom := h.2 hzero
    -- the subtraction does not wrap, and its result is at most the true difference
    have hsub : sub64 s.cfg.hostBudgetBytes need ≤ s.cfg.hostBudgetBytes - need := by
      unfold sub64
      rw [show s.cfg.hostBudgetBytes + 2 ^ 64 - need = s.cfg.hostBudgetBytes - need + 2 ^ 64 by
        omega, Nat.add_mod_right]
      exact Nat.mod_le _ _
    omega

/-- What `evict_for` leaves is what it spares, and it ends when all fits or nothing is idle. -/
theorem evictFor_spares (st : State) (need : Nat)
    (hages : (st.source.entries.map CacheEntry.age).Nodup)
    (hsmall : totalBytes st.source.entries < 2 ^ 64) :
    (∃ evictions, (evictFor st need).source = { st.source with
      entries := st.source.spared need
      stats := { st.source.stats with evictions := evictions } }) ∧
    (st.source.cfg.hostBudgetBytes ≠ 0 →
      Fits st.source need (st.source.spared need) ∨ ∀ e ∈ st.source.spared need, ¬ Idle e) := by
  unfold evictFor
  by_cases hzero : st.source.cfg.hostBudgetBytes = 0
  · have hall : st.source.spared need = st.source.entries :=
      List.filter_eq_self.2 fun e _ => decide_eq_true (Or.inl hzero)
    rw [if_pos hzero, hall]
    exact ⟨⟨_, rfl⟩, fun h => absurd hzero h⟩
  · rw [if_neg hzero]
    obtain ⟨left, evictions, hleft, hevicts⟩ := evictLoop_evicts need _ st (le_refl _)
    have hspared : left = st.source.spared need := by
      rw [hevicts.eq_filter hages (fits_mono hsmall)]
      apply List.filter_congr
      intro e _
      unfold SparedFor
      simp [hzero]
    rw [← hspared]
    exact ⟨⟨evictions, hleft⟩, fun _ => hevicts.ends⟩

end Evict

end VgEngine.TensorSource
