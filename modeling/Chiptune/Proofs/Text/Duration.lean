import Mathlib.Tactic.Common
import Chiptune.Log
import Chiptune.Proofs.Text
/-!
# Durations read back

A duration is written in the largest unit that it fills, with as many decimal places as it takes. These places are
exact (`parts?_fraction`), so nothing of a duration is lost in its text.

Main statement `nanoseconds?_duration`.
-/
namespace Chiptune.Text

/-- The number of parts that decimal places tell, `10 ^ places` of which make one. -/
def parts? (places : Nat) (cs : List Char) : Option Nat :=
  if cs.length ≤ places && cs.all Char.isDigit then
    some (Nat.ofDigitChars 10 cs 0 * Nat.pow 10 (places - cs.length))
  else none

/-- The decimal places of nanoseconds in a unit. -/
def unitPlaces? (unit : List Char) : Option Nat :=
  [("s".toList, 9), ("ms".toList, 6), ("µs".toList, 3), ("ns".toList, 0)].lookup unit

/-- A character of a decimal number. -/
def inNumber (c : Char) : Bool := c.isDigit || c == '.'

/-- The nanoseconds that a text tells, a decimal number with a unit. -/
def nanoseconds? (cs : List Char) : Option Nat := do
  let number := cs.takeWhile inNumber
  let places ← unitPlaces? (cs.dropWhile inNumber)
  let whole ← natural? (number.takeWhile Char.isDigit)
  let rest ← parts? places ((number.dropWhile Char.isDigit).drop 1)
  return whole * Nat.pow 10 places + rest

theorem toNat_digitChar : ∀ d < 10, (Nat.digitChar d).toNat - '0'.toNat = d := by decide

theorem isDigit_of_mem_fraction {places n : Nat} {c : Char} (hn : n < Nat.pow 10 places)
    (h : c ∈ fraction places n) : c.isDigit = true := by
  induction places generalizing n with
  | zero => cases h
  | succ places ih =>
    have hunit : 0 < Nat.pow 10 places := Nat.pow_pos (by decide)
    rw [fraction] at h
    by_cases hzero : n = 0
    · simp [hzero] at h
    · rw [if_neg hzero] at h
      rcases List.mem_cons.1 h with rfl | h
      · have hdigit : n / Nat.pow 10 places < 10 := Nat.div_lt_of_lt_mul hn
        rw [Nat.isDigit_digitChar]
        exact decide_eq_true hdigit
      · exact ih (Nat.mod_lt _ hunit) h

/-- Decimal places tell the parts that they are made of. -/
theorem value_fraction {places n : Nat} (hn : n < Nat.pow 10 places) :
    (fraction places n).length ≤ places ∧
      Nat.ofDigitChars 10 (fraction places n) 0 * Nat.pow 10 (places - (fraction places n).length) = n := by
  induction places generalizing n with
  | zero =>
    obtain rfl : n = 0 := Nat.lt_one_iff.1 hn
    decide
  | succ places ih =>
    have hunit : 0 < Nat.pow 10 places := Nat.pow_pos (by decide)
    have hdigit : n / Nat.pow 10 places < 10 := Nat.div_lt_of_lt_mul hn
    obtain ⟨hlength, hrest⟩ := ih (Nat.mod_lt n hunit)
    rw [fraction]
    by_cases hzero : n = 0
    · simp [hzero]
    · rw [if_neg hzero]
      generalize fraction places (n % Nat.pow 10 places) = cs at hlength hrest
      have hpow : Nat.pow 10 cs.length * Nat.pow 10 (places - cs.length) = Nat.pow 10 places := by
        refine (Nat.pow_add 10 _ _).symm.trans ?_
        rw [Nat.add_sub_cancel' hlength]
        rfl
      refine ⟨Nat.succ_le_succ hlength, ?_⟩
      rw [List.length_cons, Nat.ofDigitChars_cons, toNat_digitChar _ hdigit, Nat.ofDigitChars_eq_ofDigitChars_zero,
        Nat.add_sub_add_right, Nat.mul_zero, Nat.zero_add, Nat.add_mul, hrest, Nat.mul_right_comm]
      refine (congrArg (· * _ + _) hpow).trans ?_
      exact Nat.div_add_mod n _

/-- **Decimal places are read back.** -/
theorem parts?_fraction {places n : Nat} (hn : n < Nat.pow 10 places) : parts? places (fraction places n) = some n := by
  obtain ⟨hlength, hvalue⟩ := value_fraction hn
  have hdigits : (fraction places n).all Char.isDigit = true :=
    List.all_eq_true.2 fun c hc => isDigit_of_mem_fraction hn hc
  rw [parts?, hdigits, hvalue]
  simp [hlength]

/-- What comes before the first character of another kind is told from the rest. -/
theorem takeWhile_dropWhile_append {p : Char → Bool} {cs rest : List Char} (hcs : ∀ c ∈ cs, p c = true)
    (hrest : ∀ c ∈ rest.head?, p c = false) :
    (cs ++ rest).takeWhile p = cs ∧ (cs ++ rest).dropWhile p = rest := by
  rw [List.takeWhile_append_of_pos hcs, List.dropWhile_append_of_pos hcs]
  cases rest with
  | nil => simp
  | cons c rest => simp [hrest c rfl]

/-- The number is whole, or goes on behind a point. -/
theorem exists_inUnits_eq (places n : Nat) :
    ∃ rest, inUnits places n = decimal (n / Nat.pow 10 places) ++ rest ∧ (∀ c ∈ rest.head?, c = '.') ∧
      rest.drop 1 = fraction places (n % Nat.pow 10 places) := by
  cases hfraction : fraction places (n % Nat.pow 10 places) with
  | nil => exact ⟨[], by simp only [inUnits, hfraction, List.append_nil], nofun, rfl⟩
  | cons c cs => exact ⟨'.' :: c :: cs, by simp only [inUnits, hfraction], by simp, rfl⟩

/-- A number with a unit is read back. -/
theorem nanoseconds?_inUnits {places : Nat} {unit : List Char} (hunit : unitPlaces? unit = some places)
    (hhead : ∀ c ∈ unit.head?, inNumber c = false) (n : Nat) : nanoseconds? (inUnits places n ++ unit) = some n := by
  have hpos : 0 < Nat.pow 10 places := Nat.pow_pos (by decide)
  have hmod : n % Nat.pow 10 places < Nat.pow 10 places := Nat.mod_lt n hpos
  obtain ⟨rest, hnumber, hpoint, hplaces⟩ := exists_inUnits_eq places n
  have hdecimal : ∀ c ∈ decimal (n / Nat.pow 10 places), c.isDigit = true := fun _ => isDigit_of_mem_decimal
  have hrest : ∀ c ∈ rest, inNumber c = true := by
    cases rest with
    | nil => nofun
    | cons c cs =>
      obtain rfl := hpoint c rfl
      refine List.forall_mem_cons.2 ⟨rfl, fun d hd => ?_⟩
      rw [inNumber, isDigit_of_mem_fraction hmod (hplaces ▸ hd), Bool.true_or]
  have hchars : ∀ c ∈ decimal (n / Nat.pow 10 places) ++ rest, inNumber c = true := by
    intro c hc
    rcases List.mem_append.1 hc with hc | hc
    · rw [inNumber, hdecimal c hc, Bool.true_or]
    · exact hrest c hc
  obtain ⟨htake, hdrop⟩ := takeWhile_dropWhile_append hchars hhead
  obtain ⟨hwhole, hbehind⟩ := takeWhile_dropWhile_append hdecimal fun c hc => by rw [hpoint c hc]; rfl
  rw [hnumber, nanoseconds?, htake, hdrop, hunit, hwhole, hbehind, hplaces, natural?_decimal]
  simp only [Option.bind_eq_bind, Option.bind_some, Option.pure_def, parts?_fraction hmod]
  rw [Nat.mul_comm, Nat.div_add_mod]

/-- **A duration is read back**, to the nanosecond. -/
theorem nanoseconds?_duration (ns : Nat) : nanoseconds? (duration ns) = some ns := by
  unfold duration
  split
  · exact nanoseconds?_inUnits rfl (by simp [inNumber]) ns
  · split
    · exact nanoseconds?_inUnits rfl (by simp [inNumber]) ns
    · split
      · exact nanoseconds?_inUnits rfl (by simp [inNumber]) ns
      · exact nanoseconds?_inUnits rfl (by simp [inNumber]) ns

end Chiptune.Text

namespace Chiptune.LogRecord

/-- A warning tells the delay. -/
theorem eq_of_text_fellBehind {a b : Nat} (h : (fellBehind a).text = (fellBehind b).text) : a = b := by
  have htext (ns : Nat) : (fellBehind ns).text.toList =
      "driver fell behind by ".toList ++ Text.duration ns ++ ", resyncing".toList := by
    show ("driver fell behind by " ++ String.ofList (Text.duration ns) ++ ", resyncing").toList = _
    simp only [String.toList_append, String.toList_ofList]
  have hduration : Text.duration a = Text.duration b := by
    have hlist := congrArg String.toList h
    rwa [htext, htext, List.append_cancel_right_eq, List.append_cancel_left_eq] at hlist
  have hread := congrArg Text.nanoseconds? hduration
  rw [Text.nanoseconds?_duration, Text.nanoseconds?_duration] at hread
  exact Option.some.inj hread

end Chiptune.LogRecord
