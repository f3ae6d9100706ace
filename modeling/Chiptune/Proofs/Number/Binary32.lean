import Mathlib.Algebra.Ring.Nat
import Mathlib.Tactic.Common
import Chiptune.Number.Binary32
import Chiptune.Proofs.Number.Rounding
/-!
# The order of single-precision numbers

`PosLe` orders the positive numbers, infinity the greatest. Products keep this order as far as their 16-bit words
show it, whatever the other factor is (`toWord16_mul_le`): one that is negative, zero, infinite or no number makes
all words the same.

Whole numbers of up to 24 digits are exact (`ofNat_eq_finite`), and a difference forgets what both terms have in
common (`finite_add_sub_finite_add`).
-/
namespace Chiptune.Binary32

variable {n units : Nat} {x y : Binary32}

/-! ## Whole numbers -/

theorem nearestSignificant_mul_one (h : n < 2 ^ digits) : Rounding.nearestSignificant digits (n * one) 1 = n * one := by
  have hshift : n * one = n <<< 149 := (Nat.shiftLeft_eq n 149).symm
  rw [hshift]
  exact Rounding.nearestSignificant_shiftLeft (by decide) h 149

theorem ofNat_eq_finite (h : n < 2 ^ digits) : ofNat n = .finite false (n * one) := by
  have hlimit : n * one < limit := by
    have hone : 0 < one := by decide
    have hle : 2 ^ digits * one ≤ limit := by decide +kernel
    exact Nat.lt_of_lt_of_le (Nat.mul_lt_mul_of_pos_right h hone) hle
  simp only [ofNat, ofRatio, nearestSignificant_mul_one h, if_pos hlimit]

theorem roundHalfUp_le (h : n ≤ units) : roundHalfUp n ≤ roundHalfUp units :=
  Nat.div_le_div_right (Nat.add_le_add_right h _)

theorem roundHalfUp_mul_add (n units : Nat) : roundHalfUp (n * one + units) = n + roundHalfUp units := by
  have hpos : 0 < one := by decide
  unfold roundHalfUp
  rw [Nat.add_assoc, Nat.add_comm, Nat.add_mul_div_right _ _ hpos, Nat.add_comm]

/-! ## Quotients and differences -/

theorem finite_div_finite {a b : Nat} (s t : Bool) (h : 0 < b) :
    (finite s a / finite t b : Binary32) = ofRatio (s ^^ t) (a * one) b := by
  show div _ _ = _
  rw [div, if_neg (Nat.ne_of_gt h)]

theorem infinite_div_finite (s t : Bool) (units : Nat) : infinite s / finite t units = infinite (s ^^ t) := rfl

theorem sub_eq (x y : Binary32) : x - y = add x (neg y) := rfl

/-- What both terms have in common cancels. -/
theorem finite_add_sub_finite_add (m a b : Nat) :
    (.finite false (m + a) - .finite false (m + b) : Binary32) = .finite false a - .finite false b := by
  have hsum : signed false (m + a) + signed true (m + b) = signed false a + signed true b := by
    simp only [signed, if_true, if_false, Bool.false_eq_true]
    omega
  simp only [sub_eq, neg, add, Bool.not_false, hsum]

/-! ## Order -/

/-- The order of positive numbers, infinity the greatest. -/
inductive PosLe : Binary32 → Binary32 → Prop where
  | finite {a b : Nat} (hpos : 0 < a) (h : a ≤ b) : PosLe (.finite false a) (.finite false b)
  | toInfinite {a : Nat} (hpos : 0 < a) : PosLe (.finite false a) (.infinite false)
  | infinite : PosLe (.infinite false) (.infinite false)

theorem posLe_ofRatio {num den : Nat} (hpos : 0 < units) (h : units ≤ Rounding.nearestSignificant digits num den) :
    PosLe (.finite false units) (ofRatio false num den) := by
  unfold ofRatio
  simp only
  split
  · exact .finite hpos h
  · exact .toInfinite hpos

theorem posLe_ofNat {m : Nat} (hpos : 0 < m) (hm : m < 2 ^ digits) (h : m ≤ n) :
    PosLe (.finite false (m * one)) (ofNat n) := by
  have hle : Rounding.nearestSignificant digits (m * one) 1 ≤ Rounding.nearestSignificant digits (n * one) 1 :=
    Rounding.nearestSignificant_le (by decide) (Nat.mul_le_mul_right one h)
  rw [nearestSignificant_mul_one hm] at hle
  exact posLe_ofRatio (Nat.mul_pos hpos (by decide)) hle

theorem toWord16_ofRatio_true (num den : Nat) : (ofRatio true num den).toWord16 = 0 := by
  unfold ofRatio
  simp only
  split <;> rfl

/-- What is out of range is far above all words. -/
theorem toWord16_ofRatio_false (num den : Nat) :
    (ofRatio false num den).toWord16 =
      UInt16.ofNat (min (roundHalfUp (Rounding.nearestSignificant digits num den)) 65535) := by
  unfold ofRatio
  simp only
  generalize Rounding.nearestSignificant digits num den = units
  split
  · rfl
  · rename_i hlimit
    have hmax : roundHalfUp limit ≤ roundHalfUp units := roundHalfUp_le (Nat.not_lt.1 hlimit)
    have hword : 65535 ≤ roundHalfUp limit := by decide +kernel
    rw [Nat.min_eq_right (Nat.le_trans hword hmax)]
    rfl

theorem ofNat_min_le {a b : Nat} (h : a ≤ b) : UInt16.ofNat (min a 65535) ≤ UInt16.ofNat (min b 65535) := by
  rw [UInt16.le_iff_toNat_le, UInt16.toNat_ofNat', UInt16.toNat_ofNat', Nat.mod_eq_of_lt (by omega),
    Nat.mod_eq_of_lt (by omega)]
  omega

theorem infinite_mul_finite (s t : Bool) (h : 0 < units) :
    mul (.infinite s) (.finite t units) = .infinite (s ^^ t) := by
  rw [mul, if_neg (Nat.ne_of_gt h)]

theorem finite_mul_infinite (s t : Bool) (h : 0 < units) :
    mul (.finite s units) (.infinite t) = .infinite (s ^^ t) := by
  rw [mul, if_neg (Nat.ne_of_gt h)]

theorem toWord16_le (x : Binary32) : x.toWord16 ≤ (infinite false).toWord16 :=
  UInt16.le_iff_toNat_le.2 (Nat.le_of_lt_succ x.toWord16.toNat_lt)

/-- **The word of a product is no lower for a greater factor.** -/
theorem toWord16_mul_le (h : PosLe x y) (base : Binary32) : (base * x).toWord16 ≤ (base * y).toWord16 := by
  show (mul base x).toWord16 ≤ (mul base y).toWord16
  cases base with
  | nan => exact UInt16.le_refl _
  | infinite negative =>
    have hsame : mul (.infinite negative) x = mul (.infinite negative) y := by
      cases h with
      | finite hpos h => rw [infinite_mul_finite _ _ hpos, infinite_mul_finite _ _ (Nat.lt_of_lt_of_le hpos h)]
      | toInfinite hpos => rw [infinite_mul_finite _ _ hpos, mul]
      | infinite => rfl
    rw [hsame]
    exact UInt16.le_refl _
  | finite negative b =>
    have hzero : ∀ x : UInt16, 0 ≤ x := fun x => UInt16.le_iff_toNat_le.2 (Nat.zero_le _)
    cases negative with
    | true =>
      cases h with
      | finite hpos h => simpa only [mul, Bool.xor_false, toWord16_ofRatio_true] using hzero _
      | toInfinite hpos => simpa only [mul, Bool.xor_false, toWord16_ofRatio_true] using hzero _
      | infinite => exact UInt16.le_refl _
    | false =>
      cases h with
      | finite hpos h =>
        simp only [mul, Bool.xor_false, toWord16_ofRatio_false]
        exact ofNat_min_le (roundHalfUp_le (Rounding.nearestSignificant_le (by decide) (Nat.mul_le_mul_left b h)))
      | @toInfinite a hpos =>
        rcases Nat.eq_zero_or_pos b with rfl | hb
        · have hword : (mul (.finite false 0) (.finite false a)).toWord16 = 0 := by
            simp only [mul, Nat.zero_mul]
            decide +kernel
          rw [hword]
          exact hzero _
        · rw [finite_mul_infinite false false hb]
          exact toWord16_le _
      | infinite => exact UInt16.le_refl _

end Chiptune.Binary32
