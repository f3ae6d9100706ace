import Mathlib
import Chiptune.Proofs.Number.Binary32
import Chiptune.Proofs.Tuning
import Chiptune.Tuning.EqualTempered
/-!
# Notes of equal temperament ascend

The ratio of each note to the base is within half a semitone of the exact one (`inTune_ratio`), so rounding never
brings a note down to the one before (`posLe_ratio`). From this the frequencies ascend over any base
(`frequency_le_succ`).

The ratio of a note `k` octaves up is `k` doublings of one worked out with fewer digits (`ratio_octave`): of the
digits of the quotient `k` takes as many as it has itself. That leaves twelve notes for each number of digits, few
enough to work them all out.

Main statement `not_descendsAt_scale`.
-/
namespace Chiptune.EqualTempered

open Binary32

variable {note k units : Nat} {x y : Binary32}

/-! ## In tune -/

/-- A number within half a semitone of `2 ^ (note / 12)`: its 24th power is within a factor of two of `4 ^ note`. -/
inductive InTune (note : Nat) : Binary32 → Prop where
  | finite {units : Nat} (flat : 4 ^ note * one ^ 24 ≤ 2 * units ^ 24)
      (sharp : units ^ 24 ≤ 2 * (4 ^ note * one ^ 24)) : InTune note (.finite false units)

instance (note : Nat) : DecidablePred (InTune note)
  | .finite false units =>
    decidable_of_iff (4 ^ note * one ^ 24 ≤ 2 * units ^ 24 ∧ units ^ 24 ≤ 2 * (4 ^ note * one ^ 24))
      ⟨fun h => .finite h.1 h.2, fun | .finite flat sharp => ⟨flat, sharp⟩⟩
  | .finite true _ | .infinite _ | .nan => .isFalse nofun

theorem units_pos (h : 4 ^ note * one ^ 24 ≤ 2 * units ^ 24) : 0 < units := by
  have hone : 0 < one := by decide
  have hpos : 0 < 4 ^ note * one ^ 24 := Nat.mul_pos (Nat.pow_pos (by decide)) (Nat.pow_pos hone)
  rcases Nat.eq_zero_or_pos units with rfl | hunits
  · omega
  · exact hunits

/-- **Numbers in tune with neighbours are in their order.** -/
theorem InTune.posLe (hx : InTune note x) (hy : InTune (note + 1) y) : PosLe x y := by
  cases hx with
  | @finite a flat sharp =>
    cases hy with
    | @finite b flat' sharp' =>
      have hpow : a ^ 24 ≤ b ^ 24 := by
        rw [Nat.pow_succ', Nat.mul_assoc] at flat'
        omega
      exact .finite (units_pos flat) ((Nat.pow_le_pow_iff_left (by decide)).1 hpow)

theorem InTune.posLe_infinite (h : InTune note x) : PosLe x (.infinite false) := by
  cases h with
  | finite flat sharp => exact .toInfinite (units_pos flat)

/-- Doubling goes up an octave. -/
theorem InTune.scaleUp (h : InTune note x) (k : Nat) : InTune (12 * k + note) (scaleUp k x) := by
  cases h with
  | @finite a flat sharp =>
    have hexact : 4 ^ (12 * k + note) * one ^ 24 = (2 ^ k) ^ 24 * (4 ^ note * one ^ 24) := by
      have hoctaves : 4 ^ (12 * k) = (2 ^ k) ^ 24 := by
        rw [show 4 = 2 ^ 2 from rfl, ← Nat.pow_mul, ← Nat.pow_mul]
        congr 1
        omega
      rw [Nat.pow_add, hoctaves, Nat.mul_assoc]
    have hunits : (a <<< k) ^ 24 = (2 ^ k) ^ 24 * a ^ 24 := by
      rw [Nat.shiftLeft_eq, Nat.mul_pow, Nat.mul_comm]
    refine .finite ?_ ?_
    · rw [hexact, hunits, Nat.mul_left_comm 2]
      exact Nat.mul_le_mul_left _ flat
    · rw [hexact, hunits, Nat.mul_left_comm 2]
      exact Nat.mul_le_mul_left _ sharp

/-! ## Octaves -/

theorem scaleUp_add (m n : Nat) (x : Binary32) : scaleUp (m + n) x = scaleUp m (scaleUp n x) := by
  cases x with
  | nan => rfl
  | infinite negative => rfl
  | finite negative units => simp only [scaleUp, Nat.add_comm m n, Nat.shiftLeft_add]

/-- Only the difference to the whole number counts. -/
theorem fractionPower_add {whole high : Nat} (h : k + whole < 2 ^ digits) (low : Binary32) :
    fractionPower (k + whole) (.finite false (k * one + high)) low = fractionPower whole (.finite false high) low := by
  have hrest : (.finite false (k * one + high) : Binary32) - ofNat (k + whole) =
      .finite false high - ofNat whole := by
    rw [ofNat_eq_finite h, ofNat_eq_finite (by omega), Nat.add_mul, finite_add_sub_finite_add]
  unfold fractionPower
  rw [hrest]

/-- Two to the power of `units` units, less than one, with `e` more digits cut off. -/
def cutPower (e units : Nat) : Binary32 :=
  let whole := roundHalfUp units
  let high : Binary32 := .finite false (units >>> (138 + e) <<< (138 + e))
  scaleUp whole (fractionPower whole high (.finite false units - high))

/-- What is left of the quotient of a note by twelve, with `e` more digits rounded off. -/
def fraction (e note : Nat) : Nat :=
  Rounding.nearestWhole (note * one * one) ((12 * one) <<< (126 + e)) <<< (126 + e)

theorem one_eq : one = 2 ^ 149 := rfl

/-- A whole part takes its digits from those of the fraction. -/
theorem excess_mul_add (hk : k ≠ 0) (hunits : units < one) :
    Rounding.excess digits (k * one + units) = 126 + k.log2 := by
  have hleast : 2 ^ (149 + k.log2) ≤ k * one + units := by
    rw [Nat.add_comm, Nat.pow_add, ← one_eq]
    exact Nat.le_trans (Nat.mul_le_mul_right one (Nat.log2_self_le hk)) (Nat.le_add_right ..)
  have hgreatest : k * one + units < 2 ^ (149 + k.log2 + 1) := by
    calc k * one + units < (k + 1) * one := by rw [Nat.succ_mul]; omega
      _ ≤ 2 ^ (k.log2 + 1) * 2 ^ 149 := Nat.mul_le_mul_right one Nat.lt_log2_self
      _ = 2 ^ (149 + k.log2 + 1) := by rw [← Nat.pow_add]; congr 1; omega
  rw [Rounding.excess_eq hleast hgreatest, digits]
  omega

theorem mul_two_pow_add_shift (m a s : Nat) : (m * 2 ^ s + a) >>> s <<< s = m * 2 ^ s + a >>> s <<< s := by
  simp only [Nat.shiftRight_eq_div_pow, Nat.shiftLeft_eq]
  rw [Nat.add_comm, Nat.add_mul_div_right _ _ (Nat.two_pow_pos s), Nat.add_mul, Nat.add_comm]

section Octave

variable (hk : k ≠ 0) (hlog : k.log2 < 7)

include hk hlog

theorem truncate_mul_add (hunits : units < one) :
    (finite false (k * one + units)).truncate 12 =
      .finite false (k * one + units >>> (138 + k.log2) <<< (138 + k.log2)) := by
  have hone : one = 2 ^ (11 - k.log2) * 2 ^ (138 + k.log2) := by
    rw [one_eq, ← Nat.pow_add]
    congr 1
    omega
  have hshift : 126 + k.log2 + 12 = 138 + k.log2 := by omega
  have hcut := mul_two_pow_add_shift (k * 2 ^ (11 - k.log2)) units (138 + k.log2)
  rw [Nat.mul_assoc, ← hone] at hcut
  simp only [truncate, excess_mul_add hk hunits, hshift, hcut]

theorem mul_add_lt (hunits : units < one) : k * one + units < 128 * one := by
  have hlt : k < 128 := (Nat.log2_lt hk).1 hlog
  have hle := Nat.mul_le_mul_right one hlt
  rw [Nat.succ_mul] at hle
  omega

/-- **Each octave is one doubling.** -/
theorem exp2_mul_add (hunits : units < one) :
    exp2 (k * one + units) = scaleUp k (cutPower k.log2 units) := by
  have hleast : one ≤ k * one := Nat.le_mul_of_pos_left one (Nat.pos_of_ne_zero hk)
  have hhalf : k * one + units ≠ one / 2 := by omega
  have hrange : ¬ 128 * one ≤ k * one + units := Nat.not_le.2 (mul_add_lt hk hlog hunits)
  have hwhole : k + roundHalfUp units < 2 ^ digits := by
    have hlt : k < 128 := (Nat.log2_lt hk).1 hlog
    have hle := roundHalfUp_le (Nat.le_of_lt hunits)
    have hone : roundHalfUp one = 1 := by decide
    have hdigits : 129 < 2 ^ digits := by decide
    omega
  simp only [exp2, if_neg hhalf, if_neg hrange, truncate_mul_add hk hlog hunits, roundHalfUp_mul_add,
    fractionPower_add hwhole, finite_add_sub_finite_add, scaleUp_add, cutPower]

theorem nearestSignificant_octave (hnote : note < 12) :
    Rounding.nearestSignificant digits ((12 * k + note) * one * one) (12 * one) = k * one + fraction k.log2 note := by
  have hone : 0 < one := by decide
  have hquotient : (12 * k + note) * one * one / (12 * one) = k * one + note * one / 12 := by
    have hnum : (12 * k + note) * one = note * one + k * one * 12 := by ring
    rw [Nat.mul_div_mul_right _ _ hone, hnum, Nat.add_mul_div_right _ _ (by decide), Nat.add_comm]
  have hunits : note * one / 12 < one := Nat.div_lt_of_lt_mul (Nat.mul_lt_mul_of_pos_right hnote hone)
  -- The octaves are an even number of the steps left, so they do not take part in the rounding.
  have hsteps : 2 * (k * 2 ^ (22 - k.log2)) * 2 ^ (126 + k.log2) = k * one := by
    rw [Nat.mul_left_comm, Nat.mul_assoc, ← Nat.pow_succ', ← Nat.pow_add, one_eq]
    congr 2
    omega
  have hoctaves : (12 * k + note) * one * one =
      note * one * one + 2 * (k * 2 ^ (22 - k.log2)) * (12 * one * 2 ^ (126 + k.log2)) := by
    calc (12 * k + note) * one * one = note * one * one + k * one * (12 * one) := by ring
      _ = _ := by rw [← hsteps]; ring
  have hpos : 0 < 12 * one * 2 ^ (126 + k.log2) := Nat.mul_pos (by decide) (Nat.two_pow_pos _)
  simp only [Rounding.nearestSignificant, hquotient, excess_mul_add hk hunits, fraction, Nat.shiftLeft_eq]
  rw [hoctaves, Rounding.nearestWhole_add_mul _ _ hpos, Nat.add_mul, hsteps, Nat.add_comm]

/-- The quotient of a note by twelve is its octave and a fraction. -/
theorem ofNat_div_twelve (hnote : note < 12) (hfraction : fraction k.log2 note < one) :
    ofNat (12 * k + note) / ofNat 12 = .finite false (k * one + fraction k.log2 note) := by
  have hlt : k < 128 := (Nat.log2_lt hk).1 hlog
  have hlimit : k * one + fraction k.log2 note < limit :=
    Nat.lt_of_lt_of_le (mul_add_lt hk hlog hfraction) (by decide +kernel)
  have hdigits : 1536 < 2 ^ digits := by decide
  rw [ofNat_eq_finite (by omega), ofNat_eq_finite (by omega), finite_div_finite _ _ (by decide), ofRatio,
    nearestSignificant_octave hk hlog hnote, if_pos hlimit]
  rfl

/-- A note `k` octaves up has the ratio of the note that far above the base, rounded and cut more. -/
theorem ratio_octave (hnote : note < 12) (hfraction : fraction k.log2 note < one) :
    ratio (12 * k + note) = scaleUp k (cutPower k.log2 (fraction k.log2 note)) := by
  rw [ratio, ofNat_div_twelve hk hlog hnote hfraction, power, exp2_mul_add hk hlog hfraction]

end Octave

/-! ## All notes -/

theorem inTune_ratio_of_lt_twelve : ∀ note < 12, InTune note (ratio note) := by
  decide +kernel

/-- Seven numbers of digits and twelve notes stand for all notes above the first octave. -/
theorem inTune_cutPower :
    ∀ e < 7, ∀ note < 12, fraction e note < one ∧ InTune note (cutPower e (fraction e note)) := by
  decide +kernel

/-- **Rounding leaves each note in tune.** -/
theorem inTune_ratio (h : note < 1536) : InTune note (ratio note) := by
  rcases Nat.lt_or_ge note 12 with hlow | hhigh
  · exact inTune_ratio_of_lt_twelve note hlow
  · obtain ⟨k, j, hj, hk, rfl⟩ : ∃ k j, j < 12 ∧ k ≠ 0 ∧ note = 12 * k + j :=
      ⟨note / 12, note % 12, Nat.mod_lt _ (by decide), by omega, (Nat.div_add_mod note 12).symm⟩
    have hlog : k.log2 < 7 := (Nat.log2_lt hk).2 (by omega)
    obtain ⟨hfraction, htune⟩ := inTune_cutPower k.log2 hlog j hj
    rw [ratio_octave hk hlog hj hfraction]
    exact htune.scaleUp k

theorem posLe_div_twelve (h : PosLe (.finite false (1536 * one)) x) :
    PosLe (.finite false (128 * one)) (x / ofNat 12) := by
  have htwelve : ofNat 12 = .finite false (12 * one) := ofNat_eq_finite (by decide)
  rw [htwelve]
  cases h with
  | @finite _ units hpos hle =>
    have hexact : Rounding.nearestSignificant digits (1536 * one * one) (12 * one) = 128 * one := by decide +kernel
    have hmono : Rounding.nearestSignificant digits (1536 * one * one) (12 * one) ≤
        Rounding.nearestSignificant digits (units * one) (12 * one) :=
      Rounding.nearestSignificant_le (by decide) (Nat.mul_le_mul_right one hle)
    rw [hexact] at hmono
    rw [finite_div_finite _ _ (by decide)]
    exact posLe_ofRatio (by decide) hmono
  | toInfinite hpos =>
    rw [infinite_div_finite]
    exact .toInfinite (by decide)

theorem power_eq_infinite (h : PosLe (.finite false (128 * one)) x) : power x = .infinite false := by
  cases h with
  | @finite _ units hpos hle =>
    have hhalf : units ≠ one / 2 := by omega
    rw [power, exp2, if_neg hhalf, if_pos hle]
  | toInfinite hpos => rfl

/-- From note 1536 on the power is out of range. -/
theorem ratio_eq_infinite (h : 1536 ≤ note) : ratio note = .infinite false := by
  have hnote : PosLe (.finite false (1536 * one)) (ofNat note) := posLe_ofNat (by decide) (by decide) h
  rw [ratio, power_eq_infinite (posLe_div_twelve hnote)]

/-- **The ratios ascend.** -/
theorem posLe_ratio (note : Nat) : PosLe (ratio note) (ratio (note + 1)) := by
  rcases Nat.lt_trichotomy (note + 1) 1536 with hlt | heq | hgt
  · exact (inTune_ratio (by omega)).posLe (inTune_ratio hlt)
  · rw [ratio_eq_infinite (Nat.le_of_eq heq.symm)]
    exact (inTune_ratio (by omega)).posLe_infinite
  · rw [ratio_eq_infinite (by omega), ratio_eq_infinite (by omega)]
    exact .infinite

/-! ## Scales -/

/-- So many notes of equal temperament: note `i` is the base times two to the power of a twelfth of `i`, in whole
hertz. -/
structure Notes (base : Binary32) (n : Nat) (frequencies : List UInt16) : Prop where
  length_eq : frequencies.length = n
  note_eq : ∀ i < n, frequencies[i]? = some (base * power (ofNat i / ofNat 12)).toWord16

theorem notes_scale (base : Binary32) (n : Nat) : Notes base n (scale base n) where
  length_eq := by rw [scale, List.length_map, List.length_range]
  note_eq i hi := by rw [scale, List.getElem?_map, List.getElem?_range hi, Option.map_some, frequency, ratio]

/-- Length and notes leave one list. -/
theorem Notes.eq_scale {base : Binary32} {n : Nat} {frequencies : List UInt16}
    (h : Notes base n frequencies) : frequencies = scale base n := by
  have hscale := notes_scale base n
  refine List.ext_getElem? fun i => ?_
  rcases Nat.lt_or_ge i n with hi | hi
  · rw [h.note_eq i hi, hscale.note_eq i hi]
  · rw [List.getElem?_eq_none (h.length_eq.trans_le hi), List.getElem?_eq_none (hscale.length_eq.trans_le hi)]

theorem frequency_le_succ (base : Binary32) (note : Nat) : frequency base note ≤ frequency base (note + 1) :=
  toWord16_mul_le (posLe_ratio note) base

theorem frequency_le (base : Binary32) {a b : Nat} (h : a ≤ b) : frequency base a ≤ frequency base b := by
  induction h with
  | refl => exact UInt16.le_refl _
  | step _ ih => exact UInt16.le_trans ih (frequency_le_succ base _)

theorem pairwise_scale (base : Binary32) (count : Nat) : (scale base count).Pairwise (· ≤ ·) := by
  rw [scale, List.pairwise_map]
  exact List.pairwise_lt_range.imp fun h => frequency_le base (Nat.le_of_lt h)

theorem not_descendsAt_scale (base : Binary32) (count i : Nat) : ¬ DescendsAt (scale base count) i := by
  rintro ⟨j, last, hz, -, hlast, hhz, hlt⟩
  obtain ⟨_, rfl⟩ := List.getElem?_eq_some_iff.1 hlast
  obtain ⟨_, rfl⟩ := List.getElem?_eq_some_iff.1 hhz
  have hle := List.pairwise_iff_getElem.1 (pairwise_scale base count) j (j + 1) ‹_› ‹_› (Nat.lt_succ_self j)
  exact absurd hlt (UInt16.not_lt.2 hle)

theorem scale_ne_nil (base : Binary32) {count : Nat} (h : 1 ≤ count) : scale base count ≠ [] := by
  intro hnil
  have hlength := (notes_scale base count).length_eq
  rw [hnil] at hlength
  exact absurd hlength (Nat.ne_of_lt h)

end Chiptune.EqualTempered
