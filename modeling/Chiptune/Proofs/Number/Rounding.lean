import Mathlib.Algebra.Ring.Nat
import Mathlib.Tactic.Common
import Chiptune.Number.Rounding
/-!
# Rounding keeps the order

Rounding to whole numbers keeps the order of the numbers rounded (`nearestWhole_le`), and so does rounding to a
number of binary digits (`nearestSignificant_le`): where the greater quotient has more digits, a power of two lies
between the two results. A number of few enough digits is rounded to itself (`nearestSignificant_shiftLeft`).

Whole numbers pass through rounding if they are even (`nearestWhole_add_mul`), since a tie goes by parity.
-/
namespace Chiptune.Rounding

variable {num num' den digits n : Nat}

/-! ## Whole numbers -/

theorem le_nearestWhole (num den : Nat) : num / den ≤ nearestWhole num den := by
  unfold nearestWhole
  simp only
  split
  · exact Nat.le_refl _
  · split <;> omega

theorem nearestWhole_le_succ (num den : Nat) : nearestWhole num den ≤ num / den + 1 := by
  unfold nearestWhole
  simp only
  split
  · exact Nat.le_succ _
  · split <;> omega

/-- **Rounding keeps the order.** -/
theorem nearestWhole_le (h : num ≤ num') : nearestWhole num den ≤ nearestWhole num' den := by
  have hle : num / den ≤ num' / den := Nat.div_le_div_right h
  rcases Nat.lt_or_eq_of_le hle with hlt | heq
  · exact Nat.le_trans (nearestWhole_le_succ num den) (Nat.le_trans hlt (le_nearestWhole num' den))
  · -- With one quotient the order is that of the rests.
    have hrest : num % den ≤ num' % den := by
      have hnum := Nat.div_add_mod num den
      have hnum' := Nat.div_add_mod num' den
      rw [heq] at hnum
      omega
    unfold nearestWhole
    simp only [heq]
    split_ifs <;> omega

theorem nearestWhole_mul (n : Nat) (h : 0 < den) : nearestWhole (n * den) den = n := by
  unfold nearestWhole
  simp [Nat.mul_div_cancel n h, h]

/-- An even whole number passes through. -/
theorem nearestWhole_add_mul (num n : Nat) (h : 0 < den) :
    nearestWhole (num + 2 * n * den) den = nearestWhole num den + 2 * n := by
  unfold nearestWhole
  simp only [Nat.add_mul_div_right num (2 * n) h, Nat.add_mul_mod_self_right]
  split
  · rfl
  · split <;> omega

/-! ## Numbers of some binary digits -/

theorem lt_two_pow_excess (digits n : Nat) : n < 2 ^ (digits + excess digits n) :=
  Nat.lt_of_lt_of_le Nat.lt_log2_self (Nat.pow_le_pow_right (by decide) (by unfold excess; omega))

theorem two_pow_excess_le (hdigits : 0 < digits) (h : 0 < excess digits n) :
    2 ^ (digits + excess digits n) ≤ 2 * n := by
  have hlog : digits + excess digits n = n.log2 + 1 := by
    unfold excess at h ⊢
    omega
  have hn : n ≠ 0 := by
    rintro rfl
    have : Nat.log2 0 = 0 := rfl
    omega
  have hself := Nat.log2_self_le hn
  rw [hlog, Nat.pow_succ]
  omega

theorem excess_le (h : n ≤ num) : excess digits n ≤ excess digits num := by
  have hlog : n.log2 ≤ num.log2 := by
    by_cases hn : n = 0
    · subst hn
      exact Nat.zero_le _
    · exact (Nat.le_log2 (by omega)).2 (Nat.le_trans (Nat.log2_self_le hn) h)
  unfold excess
  omega

theorem excess_eq {k : Nat} (hlow : 2 ^ k ≤ n) (hhigh : n < 2 ^ (k + 1)) : excess digits n = k + 1 - digits := by
  have hpos : 0 < 2 ^ k := Nat.two_pow_pos k
  rw [excess, (Nat.log2_eq_iff (by omega)).2 ⟨hlow, hhigh⟩]

/-- A rounded number has the digits asked for, or is the next power of two. -/
theorem nearestSignificant_le_two_pow (digits num den : Nat) :
    nearestSignificant digits num den ≤ 2 ^ (digits + excess digits (num / den)) := by
  have hlt := lt_two_pow_excess digits (num / den)
  unfold nearestSignificant
  simp only
  generalize excess digits (num / den) = shift at hlt ⊢
  have hdiv : num / (den <<< shift) < 2 ^ digits := by
    rw [Nat.shiftLeft_eq, ← Nat.div_div_eq_div_mul]
    exact Nat.div_lt_of_lt_mul (by rwa [← Nat.pow_add, Nat.add_comm])
  rw [Nat.shiftLeft_eq, Nat.pow_add]
  exact Nat.mul_le_mul_right _ (Nat.le_trans (nearestWhole_le_succ ..) hdiv)

/-- A rounded number with digits beyond those asked for is not below the power of two below it. -/
theorem two_pow_le_nearestSignificant (hdigits : 0 < digits) (h : 0 < excess digits (num / den)) :
    2 ^ (digits + excess digits (num / den)) ≤ 2 * nearestSignificant digits num den := by
  have hle := two_pow_excess_le hdigits h
  unfold nearestSignificant
  simp only
  generalize excess digits (num / den) = shift at hle ⊢
  obtain ⟨k, rfl⟩ : ∃ k, digits = k + 1 := ⟨digits - 1, by omega⟩
  have hpow : 2 ^ (k + 1 + shift) = 2 * (2 ^ k * 2 ^ shift) := by
    rw [Nat.add_right_comm, Nat.pow_succ', Nat.pow_add]
  have hdiv : 2 ^ k ≤ num / (den <<< shift) := by
    rw [Nat.shiftLeft_eq, ← Nat.div_div_eq_div_mul, Nat.le_div_iff_mul_le (Nat.two_pow_pos shift)]
    omega
  rw [hpow, Nat.shiftLeft_eq]
  exact Nat.mul_le_mul_left 2 (Nat.mul_le_mul_right _ (Nat.le_trans hdiv (le_nearestWhole ..)))

/-- **Rounding to a number of digits keeps the order.** -/
theorem nearestSignificant_le (hdigits : 0 < digits) (h : num ≤ num') :
    nearestSignificant digits num den ≤ nearestSignificant digits num' den := by
  have hshift : excess digits (num / den) ≤ excess digits (num' / den) := excess_le (Nat.div_le_div_right h)
  rcases Nat.lt_or_eq_of_le hshift with hlt | heq
  · have hlow := nearestSignificant_le_two_pow digits num den
    have hhigh := two_pow_le_nearestSignificant hdigits (Nat.zero_lt_of_lt hlt)
    have hpow : 2 * 2 ^ (digits + excess digits (num / den)) ≤ 2 ^ (digits + excess digits (num' / den)) := by
      rw [← Nat.pow_succ']
      exact Nat.pow_le_pow_right (by decide) (by omega)
    omega
  · unfold nearestSignificant
    simp only [heq, Nat.shiftLeft_eq]
    exact Nat.mul_le_mul_right _ (nearestWhole_le h)

/-- **A number of few enough digits is rounded to itself.** -/
theorem nearestSignificant_shiftLeft (hdigits : 0 < digits) (hn : n < 2 ^ digits) (shift : Nat) :
    nearestSignificant digits (n <<< shift) 1 = n <<< shift := by
  have hexcess : excess digits (n <<< shift) ≤ shift := by
    by_cases hzero : n <<< shift = 0
    · have hlog : Nat.log2 0 = 0 := rfl
      rw [hzero, excess, hlog]
      omega
    · have hlog : (n <<< shift).log2 < digits + shift := by
        rw [Nat.log2_lt hzero, Nat.shiftLeft_eq, Nat.pow_add]
        exact Nat.mul_lt_mul_of_pos_right hn (Nat.two_pow_pos shift)
      unfold excess
      omega
  unfold nearestSignificant
  simp only [Nat.div_one]
  generalize excess digits (n <<< shift) = e at hexcess ⊢
  obtain ⟨k, rfl⟩ := Nat.exists_eq_add_of_le hexcess
  have hsplit : n <<< (e + k) = n <<< k * (1 <<< e) := by
    rw [Nat.shiftLeft_eq, Nat.shiftLeft_eq, Nat.one_shiftLeft, Nat.add_comm, Nat.pow_add, Nat.mul_assoc]
  rw [hsplit, nearestWhole_mul _ (by rw [Nat.one_shiftLeft]; exact Nat.two_pow_pos e), Nat.shiftLeft_eq,
    Nat.one_shiftLeft]

end Chiptune.Rounding
