import Mathlib.Data.Nat.Find
import Mathlib.Order.Bounds.Basic
import Mathlib.Tactic.Common
import Chiptune.Tuning
/-!
# Lists of frequencies

A list of frequencies is a tuning unless it is empty or descends somewhere, and what is told then is the first
position where it does (`Tuning.ofFrequencies_eq_error`). `firstDescent` finds this position by looking at
neighbours only (`firstDescent_spec`).
-/
namespace Chiptune

/-- The frequency at position `i` is lower than the one before. -/
def DescendsAt (frequencies : List UInt16) (i : Nat) : Prop :=
  ∃ j last hz, i = j + 1 ∧ frequencies[j]? = some last ∧ frequencies[j + 1]? = some hz ∧ hz < last

variable {last hz : UInt16} {rest frequencies : List UInt16} {i : Nat}

theorem not_descendsAt_zero : ¬ DescendsAt frequencies 0 := by
  rintro ⟨j, _, _, hj, -⟩
  cases hj

theorem not_descendsAt_singleton : ¬ DescendsAt [hz] i := by
  rintro ⟨j, _, _, -, -, hnext, -⟩
  cases hnext

theorem descendsAt_cons_one : DescendsAt (last :: hz :: rest) 1 ↔ hz < last := by
  constructor
  · rintro ⟨j, a, b, hj, ha, hb, hlt⟩
    cases hj
    cases ha
    cases hb
    exact hlt
  · intro hlt
    exact ⟨0, last, hz, rfl, rfl, rfl, hlt⟩

/-- A descent behind the second frequency is one of the list without the first. -/
theorem descendsAt_cons_succ (hi : 0 < i) :
    DescendsAt (last :: frequencies) (i + 1) ↔ DescendsAt frequencies i := by
  constructor
  · rintro ⟨j, a, b, hj, ha, hb, hlt⟩
    cases j with
    | zero => omega
    | succ j => exact ⟨j, a, b, by omega, ha, hb, hlt⟩
  · rintro ⟨j, a, b, rfl, ha, hb, hlt⟩
    exact ⟨j + 1, a, b, rfl, ha, hb, hlt⟩

/-- **Where no neighbour descends, no later frequency is lower than an earlier one.** -/
theorem le_of_not_descendsAt {n a b : Nat} {x y : UInt16} (h : ∀ i < n, ¬ DescendsAt frequencies i) (hab : a ≤ b)
    (hb : b < n) (hx : frequencies[a]? = some x) (hy : frequencies[b]? = some y) : x ≤ y := by
  induction hab generalizing y with
  | refl =>
    rw [hx] at hy
    exact UInt16.le_of_eq (Option.some.inj hy)
  | @step b _ ih =>
    have hlength : b + 1 < frequencies.length := (List.getElem?_eq_some_iff.1 hy).1
    have hlast : frequencies[b]? = some frequencies[b] := List.getElem?_eq_getElem (Nat.lt_of_succ_lt hlength)
    have hle : x ≤ frequencies[b] := ih (Nat.lt_of_succ_lt hb) hlast
    have hstep : ¬ y < frequencies[b] := fun hlt => h (b + 1) hb ⟨b, _, y, rfl, hlast, hy, hlt⟩
    exact UInt16.le_trans hle (UInt16.not_lt.1 hstep)

/-- A list descends for the first time in its tail if its first two frequencies do not. -/
theorem isLeast_descendsAt_cons (hle : ¬ hz < last) (hi : 0 < i) :
    IsLeast {j | DescendsAt (last :: hz :: rest) j} (i + 1) ↔ IsLeast {j | DescendsAt (hz :: rest) j} i := by
  refine and_congr (descendsAt_cons_succ hi) ⟨?_, ?_⟩
  · intro hleast j hj
    have hpos : 0 < j := Nat.pos_of_ne_zero fun h => not_descendsAt_zero (h ▸ hj)
    have := hleast ((descendsAt_cons_succ hpos).2 hj)
    omega
  · intro hleast j hj
    match j, hj with
    | 0, hj => exact absurd hj not_descendsAt_zero
    | 1, hj => exact absurd (descendsAt_cons_one.1 hj) hle
    | j + 2, hj =>
      have := hleast ((descendsAt_cons_succ (Nat.succ_pos j)).1 hj)
      omega

/-- **The search finds the first descent**, positions being counted from `index` for the frequency behind
`last`. -/
theorem firstDescent_eq_some {index n : Nat} :
    firstDescent last index rest = some n ↔
      ∃ i, IsLeast {j | DescendsAt (last :: rest) j} (i + 1) ∧ n = index + i := by
  induction rest generalizing last index with
  | nil =>
    simp only [firstDescent, reduceCtorEq, false_iff]
    rintro ⟨i, hleast, -⟩
    exact not_descendsAt_singleton hleast.1
  | cons hz rest ih =>
    rw [firstDescent]
    by_cases hlt : hz < last
    · have hone : IsLeast {j | DescendsAt (last :: hz :: rest) j} 1 := by
        refine ⟨descendsAt_cons_one.2 hlt, fun j hj => ?_⟩
        exact Nat.pos_of_ne_zero fun h => not_descendsAt_zero (h ▸ hj)
      rw [if_pos hlt, Option.some.injEq]
      constructor
      · rintro rfl
        exact ⟨0, hone, rfl⟩
      · rintro ⟨i, hleast, rfl⟩
        have := hleast.unique hone
        omega
    · rw [if_neg hlt, ih]
      constructor
      · rintro ⟨i, hleast, rfl⟩
        exact ⟨i + 1, (isLeast_descendsAt_cons hlt (Nat.succ_pos i)).2 hleast, by omega⟩
      · rintro ⟨i, hleast, rfl⟩
        cases i with
        | zero => exact absurd (descendsAt_cons_one.1 hleast.1) hlt
        | succ i => exact ⟨i, (isLeast_descendsAt_cons hlt (Nat.succ_pos i)).1 hleast, by omega⟩

namespace Tuning

/-- **A list is refused for its first descent**, or for being empty. -/
theorem ofFrequencies_eq_error {fault : TableFault} :
    ofFrequencies frequencies = .error fault ↔
      frequencies = [] ∧ fault = .empty ∨
        ∃ i, IsLeast {j | DescendsAt frequencies j} i ∧ fault = .notMonotonic i := by
  cases frequencies with
  | nil =>
    have hnone : ¬ ∃ i, IsLeast {j | DescendsAt [] j} i ∧ fault = .notMonotonic i := by
      rintro ⟨i, ⟨⟨j, _, _, -, hj, -⟩, -⟩, -⟩
      cases hj
    rw [or_iff_left hnone, ofFrequencies, Except.error.injEq, eq_comm]
    simp
  | cons hz rest =>
    simp only [ofFrequencies, reduceCtorEq, false_and, false_or]
    split
    · rename_i hnone
      simp only [reduceCtorEq, false_iff]
      rintro ⟨i, hleast, -⟩
      cases i with
      | zero => exact not_descendsAt_zero hleast.1
      | succ i =>
        rw [firstDescent_eq_some.2 ⟨i, hleast, rfl⟩] at hnone
        cases hnone
    · rename_i n hsome
      obtain ⟨i, hleast, rfl⟩ := firstDescent_eq_some.1 hsome
      rw [Except.error.injEq]
      constructor
      · rintro rfl
        exact ⟨i + 1, hleast, by rw [Nat.add_comm]⟩
      · rintro ⟨j, hj, rfl⟩
        rw [hj.unique hleast, Nat.add_comm]

/-- What descends somewhere descends somewhere for the first time. -/
theorem exists_isLeast_descendsAt (h : DescendsAt frequencies i) : ∃ j, IsLeast {j | DescendsAt frequencies j} j := by
  classical
  exact ⟨Nat.find ⟨i, h⟩, Nat.find_spec ⟨i, h⟩, fun j hj => Nat.find_min' ⟨i, h⟩ hj⟩

theorem exists_ofFrequencies_eq_ok :
    (∃ t, ofFrequencies frequencies = .ok t) ↔ frequencies ≠ [] ∧ ∀ i, ¬ DescendsAt frequencies i := by
  constructor
  · rintro ⟨t, ht⟩
    constructor
    · rintro rfl
      cases ht
    · intro i hi
      obtain ⟨j, hj⟩ := exists_isLeast_descendsAt hi
      rw [ofFrequencies_eq_error.2 (.inr ⟨j, hj, rfl⟩)] at ht
      cases ht
  · rintro ⟨hne, hascending⟩
    cases ht : ofFrequencies frequencies with
    | ok t => exact ⟨t, rfl⟩
    | error fault =>
      rcases ofFrequencies_eq_error.1 ht with ⟨hnil, -⟩ | ⟨i, hi, -⟩
      · exact absurd hnil hne
      · exact absurd hi.1 (hascending i)

end Tuning

end Chiptune
