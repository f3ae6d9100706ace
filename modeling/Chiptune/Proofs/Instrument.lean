import Mathlib.Data.List.Forall2
import Mathlib.Tactic.Common
import Chiptune.Config
/-!
# Lists of instrument codes

Two codes are an instrument if none is above 3 (`ofCodes_eq_ok`), and the channel is told first
(`ofCodes_eq_error`). A list of codes is read in order: either it gives one instrument for each pair of codes
(`mapM_ofCodes_eq_ok`), or the first pair that is too wide is told (`mapM_ofCodes_eq_error`).
-/
namespace Chiptune

variable {channel mode : UInt8} {fault : TableFault}

theorem eq_of_le_three {code : UInt8} (h : code ≤ 3) : code = 0 ∨ code = 1 ∨ code = 2 ∨ code = 3 := by
  simp only [UInt8.le_iff_toNat_le, ← UInt8.toNat_inj, UInt8.reduceToNat] at h ⊢
  omega

theorem Channel.code_ofBits (h : channel ≤ 3) : (ofBits channel).code = channel := by
  rcases eq_of_le_three h with rfl | rfl | rfl | rfl <;> rfl

theorem Channel.ofBits_code (c : Channel) : ofBits c.code = c := by
  cases c <;> rfl

theorem Channel.code_le (c : Channel) : c.code ≤ 3 := by
  cases c <;> decide

theorem Duty.code_ofBits (h : mode ≤ 3) : (ofBits mode).code = mode := by
  rcases eq_of_le_three h with rfl | rfl | rfl | rfl <;> rfl

theorem Duty.ofBits_code (d : Duty) : ofBits d.code = d := by
  cases d <;> rfl

theorem Duty.code_le (d : Duty) : d.code ≤ 3 := by
  cases d <;> decide

namespace Instrument

theorem ofCodes_eq_error :
    ofCodes channel mode = .error fault ↔
      3 < channel ∧ fault = .outOfRange .channel channel ∨
        channel ≤ 3 ∧ 3 < mode ∧ fault = .outOfRange .mode mode := by
  unfold ofCodes
  by_cases hchannel : 3 < channel
  · have hle : ¬ channel ≤ 3 := UInt8.not_le.2 hchannel
    simp [hchannel, hle, eq_comm]
  · have hle : channel ≤ 3 := UInt8.not_lt.1 hchannel
    by_cases hmode : 3 < mode
    · simp [hchannel, hle, hmode, eq_comm]
    · simp [hchannel, hmode]

theorem ofCodes_eq_ok {i : Instrument} :
    ofCodes channel mode = .ok i ↔ i.channel.code = channel ∧ i.duty.code = mode := by
  unfold ofCodes
  constructor
  · intro h
    split at h
    · cases h
    · rename_i hchannel
      split at h
      · cases h
      · rename_i hmode
        cases h
        exact ⟨Channel.code_ofBits (UInt8.not_lt.1 hchannel), Duty.code_ofBits (UInt8.not_lt.1 hmode)⟩
  · rintro ⟨rfl, rfl⟩
    rw [if_neg (UInt8.not_lt.2 i.channel.code_le), if_neg (UInt8.not_lt.2 i.duty.code_le),
      Channel.ofBits_code, Duty.ofBits_code]

end Instrument

/-! ## Lists -/

section
variable {ε α β : Type} {f : α → Except ε β} {xs : List α}

/-- A list is read if each of its elements is. -/
theorem mapM_eq_ok {ys : List β} : xs.mapM f = .ok ys ↔ List.Forall₂ (fun x y => f x = .ok y) xs ys := by
  induction xs generalizing ys with
  | nil => cases ys <;> simp [pure, Except.pure]
  | cons x xs ih =>
    rw [List.mapM_cons, List.forall₂_cons_left_iff]
    cases hx : f x with
    | error e => simp [bind, Except.bind]
    | ok y =>
      simp only [← ih]
      cases xs.mapM f with
      | error e => simp [bind, Except.bind]
      | ok zs => simp [bind, Except.bind, pure, Except.pure, eq_comm]

theorem exists_mapM_eq_ok : (∃ ys, xs.mapM f = .ok ys) ↔ ∀ x ∈ xs, ∃ y, f x = .ok y := by
  simp only [mapM_eq_ok]
  induction xs with
  | nil => simp
  | cons x xs ih =>
    rw [List.forall_mem_cons, ← ih]
    constructor
    · rintro ⟨ys, hys⟩
      cases hys with
      | cons hx hxs => exact ⟨⟨_, hx⟩, _, hxs⟩
    · rintro ⟨⟨y, hy⟩, ys, hys⟩
      exact ⟨y :: ys, .cons hy hys⟩

/-- A list is not read for the first of its elements that is not. -/
theorem mapM_eq_error {e : ε} :
    xs.mapM f = .error e ↔
      ∃ before x after, xs = before ++ x :: after ∧ (∀ y ∈ before, ∃ b, f y = .ok b) ∧ f x = .error e := by
  induction xs with
  | nil => simp [pure, Except.pure]
  | cons x xs ih =>
    rw [List.mapM_cons]
    cases hx : f x with
    | error e' =>
      simp only [bind, Except.bind, Except.error.injEq]
      constructor
      · rintro rfl
        exact ⟨[], x, xs, rfl, nofun, hx⟩
      · rintro ⟨before, y, after, hxs, hbefore, hy⟩
        cases before with
        | nil =>
          cases hxs
          rw [hx] at hy
          exact Except.error.inj hy
        | cons z before =>
          cases hxs
          obtain ⟨b, hb⟩ := hbefore x (by simp)
          rw [hx] at hb
          cases hb
    | ok b =>
      have hrest : (do let bs ← xs.mapM f; pure (b :: bs)) = .error e ↔ xs.mapM f = .error e := by
        cases xs.mapM f <;> simp [bind, Except.bind, pure, Except.pure]
      refine hrest.trans (ih.trans ?_)
      constructor
      · rintro ⟨before, y, after, rfl, hbefore, hy⟩
        refine ⟨x :: before, y, after, rfl, ?_, hy⟩
        rintro z (_ | ⟨_, hz⟩)
        · exact ⟨b, hx⟩
        · exact hbefore z hz
      · rintro ⟨before, y, after, hxs, hbefore, hy⟩
        cases before with
        | nil =>
          cases hxs
          rw [hx] at hy
          cases hy
        | cons z before =>
          cases hxs
          exact ⟨before, y, after, rfl, fun z hz => hbefore z (by simp [hz]), hy⟩

end

end Chiptune
