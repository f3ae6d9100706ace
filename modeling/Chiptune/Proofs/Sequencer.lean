import Chiptune.Sequencer
import Chiptune.Proofs.Track.Run
/-!
# Sequencer ticks

What one tick of a sequencer tells of its tracks (`mem_tick_tones`, in the order of `pairwise_tonesFrom`),
and where the tracks stand after any number of ticks: each one where it would stand on its own
(`tracks_after`).
-/
namespace Chiptune

theorem Outcome.tone?_eq_some {o : Outcome} {tone : Tone} : o.tone? = some tone ↔ o = .played tone := by
  cases o with
  | played other => simp [Outcome.tone?]
  | waited left => simp [Outcome.tone?]
  | rest => simp [Outcome.tone?]
  | looped => simp [Outcome.tone?]

namespace Sequencer

variable {index : Nat} {steps : List Step} {tone : Tone}

/-! ## The tones of a tick -/

/-- The tone of the first step, if it has one, goes before the tones of the others. -/
theorem tonesFrom_cons (index : Nat) (step : Step) (rest : List Step) :
    tonesFrom index (step :: rest) =
      (step.outcome.tone?.map (index, ·)).toList ++ tonesFrom (index + 1) rest := by
  rw [tonesFrom]
  cases step.outcome.tone? <;> rfl

theorem le_of_mem_tonesFrom {x : Nat × Tone} (h : x ∈ tonesFrom index steps) : index ≤ x.1 := by
  induction steps generalizing index with
  | nil => cases h
  | cons step rest ih =>
    rw [tonesFrom_cons, List.mem_append] at h
    rcases h with h | h
    · obtain ⟨tone, _, rfl⟩ := by simpa using h
      exact Nat.le_refl _
    · exact Nat.le_of_succ_le (ih h)

/-- **Tones come in the order of their tracks**, at most one for each. -/
theorem pairwise_tonesFrom (index : Nat) (steps : List Step) :
    (tonesFrom index steps).Pairwise fun x y => x.1 < y.1 := by
  induction steps generalizing index with
  | nil => exact .nil
  | cons step rest ih =>
    rw [tonesFrom_cons, List.pairwise_append]
    refine ⟨?_, ih _, ?_⟩
    · cases step.outcome.tone? <;> simp
    · intro x hx y hy
      obtain ⟨tone, _, rfl⟩ := by simpa using hx
      exact Nat.lt_of_succ_le (le_of_mem_tonesFrom hy)

theorem mem_tonesFrom {i : Nat} :
    (index + i, tone) ∈ tonesFrom index steps ↔
      ∃ step, steps[i]? = some step ∧ step.outcome = .played tone := by
  induction steps generalizing index i with
  | nil => simp [tonesFrom]
  | cons step rest ih =>
    rw [tonesFrom_cons, List.mem_append]
    cases i with
    | zero =>
      -- The tones of the other steps have greater numbers.
      have hrest : (index, tone) ∉ tonesFrom (index + 1) rest := by
        intro h
        have : index + 1 ≤ index := le_of_mem_tonesFrom h
        omega
      simp [hrest, Outcome.tone?_eq_some]
    | succ i =>
      have hfirst : (index + (i + 1), tone) ∉ (step.outcome.tone?.map (index, ·)).toList := by
        simp
      have hindex : index + (i + 1) = index + 1 + i := by omega
      rw [List.getElem?_cons_succ, or_iff_right hfirst, hindex, ih]

variable {capacity : Nat} {s : Sequencer capacity}

/-- **A tone of a tick is one that its track plays**, and every one that a track plays is there. -/
theorem mem_tick_tones {k : Nat} :
    (k, tone) ∈ s.tick.tones ↔ ∃ t, s.tracks[k]? = some t ∧ (t.tick s.bank).outcome = .played tone := by
  have h := @mem_tonesFrom 0 s.steps tone k
  rw [Nat.zero_add, steps, List.getElem?_map] at h
  refine h.trans ?_
  cases s.tracks[k]? <;> simp

/-! ## Ticks in a row -/

/-- The sequencer a number of ticks later. -/
def after (s : Sequencer capacity) : Nat → Sequencer capacity
  | 0 => s
  | n + 1 => (s.after n).tick.sequencer

theorem after_succ (s : Sequencer capacity) (n : Nat) : s.after (n + 1) = (s.after n).tick.sequencer := rfl

@[simp] theorem bank_after (s : Sequencer capacity) (n : Nat) : (s.after n).bank = s.bank := by
  induction n with
  | zero => rfl
  | succ n ih => exact ih

@[simp] theorem ticks_after (s : Sequencer capacity) (n : Nat) : (s.after n).ticks = s.ticks + n := by
  induction n with
  | zero => rfl
  | succ n ih =>
    rw [after_succ, ← Nat.add_assoc, ← ih]
    rfl

/-- **Each track is where it would be on its own.** -/
theorem tracks_after (s : Sequencer capacity) (n : Nat) :
    (s.after n).tracks = s.tracks.map (·.after s.bank n) := by
  induction n with
  | zero =>
    have hid : (fun t : Track => t.after s.bank 0) = id := rfl
    rw [hid, List.map_id, after]
  | succ n ih =>
    simp only [after_succ, tick, steps, ih, bank_after, List.map_map]
    rfl

/-- A tone of tick `n` is one that its track plays in tick `n` of a run on its own. -/
theorem mem_tick_tones_after {n k : Nat} :
    (k, tone) ∈ (s.after n).tick.tones ↔
      ∃ t, s.tracks[k]? = some t ∧ ((t.after s.bank n).tick s.bank).outcome = .played tone := by
  rw [mem_tick_tones, tracks_after, bank_after, List.getElem?_map]
  cases s.tracks[k]? <;> simp

end Sequencer

end Chiptune
