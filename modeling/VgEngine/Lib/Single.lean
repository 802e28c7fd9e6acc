import Mathlib.Algebra.Order.Ring.Nat
import Mathlib.Tactic.Common

/-! The conversion of a whole number to a float of single precision. -/
namespace VgEngine.Single

/-- The nearest number with 24 bits of significand; of two, the one whose last bit is even. -/
def toSingle (n : Nat) : Nat :=
  let unit := 2 ^ (n.log2 - 23)
  let q := n / unit
  let r := n % unit
  if unit < 2 * r ∨ (2 * r = unit ∧ q % 2 = 1) then (q + 1) * unit else q * unit

/-- Numbers of 24 bits are exact, and so is the first of 25 bits. -/
theorem toSingle_eq {n : Nat} (h : n ≤ 2 ^ 24) : toSingle n = n := by
  rcases Nat.lt_or_eq_of_le h with hlt | rfl
  · have hlog : n.log2 - 23 = 0 := by
      rcases Nat.eq_zero_or_pos n with rfl | hpos
      · decide
      · have := (Nat.log2_lt (Nat.pos_iff_ne_zero.1 hpos)).2 hlt
        omega
    simp [toSingle, hlog, Nat.mod_one]
  · decide +kernel

example : toSingle (2 ^ 24 + 63) = 2 ^ 24 + 64 := by decide +kernel

/-- Beyond 24 bits, a multiple of a larger unit that is no less than 2^24. -/
theorem toSingle_large {n : Nat} (h : 2 ^ 24 < n) :
    ∃ q unit, toSingle n = q * unit ∧ 2 ∣ unit ∧ 2 ^ 24 ≤ q * unit := by
  have hlog : 24 ≤ n.log2 := (Nat.le_log2 (by omega)).2 h.le
  have hunit : 2 ∣ 2 ^ (n.log2 - 23) := dvd_pow_self 2 (by omega)
  have hfloor : 2 ^ 24 ≤ n / 2 ^ (n.log2 - 23) * 2 ^ (n.log2 - 23) := by
    have hq : 2 ^ 23 ≤ n / 2 ^ (n.log2 - 23) := by
      rw [Nat.le_div_iff_mul_le (Nat.two_pow_pos _), ← Nat.pow_add,
        show 23 + (n.log2 - 23) = n.log2 by omega]
      exact Nat.log2_self_le (by omega)
    have hpow : 2 ^ 1 ≤ 2 ^ (n.log2 - 23) := Nat.pow_le_pow_right (by decide) (by omega)
    calc 2 ^ 24 = 2 ^ 23 * 2 ^ 1 := by decide
      _ ≤ n / 2 ^ (n.log2 - 23) * 2 ^ (n.log2 - 23) := Nat.mul_le_mul hq hpow
  unfold toSingle
  dsimp only
  split
  · refine ⟨_, _, rfl, hunit, hfloor.trans ?_⟩
    exact Nat.mul_le_mul_right _ (Nat.le_succ _)
  · exact ⟨_, _, rfl, hunit, hfloor⟩

theorem le_toSingle {m n : Nat} (hm : m ≤ 2 ^ 24) (h : m ≤ n) : m ≤ toSingle n := by
  rcases Nat.lt_or_ge (2 ^ 24) n with hlarge | hsmall
  · obtain ⟨q, unit, hval, -, hlow⟩ := toSingle_large hlarge
    rw [hval]
    exact hm.trans hlow
  · rwa [toSingle_eq hsmall]

/-- No number becomes the first one that is not exact. -/
theorem toSingle_ne (n : Nat) : toSingle n ≠ 2 ^ 24 + 1 := by
  rcases Nat.lt_or_ge (2 ^ 24) n with hlarge | hsmall
  · obtain ⟨q, unit, hval, heven, -⟩ := toSingle_large hlarge
    have hdvd : 2 ∣ toSingle n := hval ▸ Dvd.dvd.mul_left heven q
    omega
  · rw [toSingle_eq hsmall]
    omega

end VgEngine.Single
