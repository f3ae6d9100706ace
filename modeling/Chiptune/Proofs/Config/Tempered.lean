import Mathlib
import Chiptune.Proofs.Config.Verdict
/-!
# Configurations over a base frequency

A scale of equal temperament does not descend, so nothing can be wrong with the notes of a configuration that
describes one.

Main statement `scale_is_tuning`.
-/
namespace Chiptune.EqualTempered

open Binary32

theorem exists_tuning_scale (base : Binary32) {count : Nat} (h : 1 ≤ count) :
    ∃ t, Tuning.ofFrequencies (scale base count) = .ok t ∧ t.frequencies = scale base count := by
  obtain ⟨t, ht⟩ := Tuning.exists_ofFrequencies_eq_ok.2 ⟨scale_ne_nil base h, not_descendsAt_scale base count⟩
  exact ⟨t, ht, (Tuning.ofFrequencies_eq_ok.1 ht)⟩

/-- A base frequency describes its scale, of sixty notes if they are not counted. -/
theorem describes_scale (base : Binary32) (count : Option Nat) :
    NotesConfig.Describes ⟨none, some base, count⟩ (scale base (count.getD 60)) := by
  cases count with
  | none => exact .uncounted (notes_scale base 60)
  | some n => exact .tempered (notes_scale base n)

/-- **Over any base, zero, infinity and NaN included, the notes of a scale do not descend**; a scale of at least one
note is a tuning, and a configuration that describes one is accepted. -/
theorem scale_is_tuning (base : Binary32) :
    (∀ count, (scale base count).Pairwise (· ≤ ·)) ∧
      (∀ count, 1 ≤ count →
        ∃ t, Tuning.ofFrequencies (scale base count) = .ok t ∧ t.frequencies = scale base count) ∧
      ∀ (tickRate : Nat) (count : Option Nat) (instruments : List InstrumentConfig), 0 < tickRate →
        (∀ n ∈ count, 1 ≤ n ∧ n ≤ 256) → instruments ≠ [] → (∀ i ∈ instruments, i.Fits) →
          ∃ bank, Config.soundbank ⟨tickRate, ⟨none, some base, count⟩, instruments⟩ = .ok bank ∧
            bank.tuning.frequencies = scale base (count.getD 60) := by
  refine ⟨pairwise_scale base, fun count h => exists_tuning_scale base h, ?_⟩
  intro tickRate count instruments hrate hcount hinstruments hfits
  have hnotes := describes_scale base count
  have hpos : 1 ≤ count.getD 60 := by
    cases count with
    | none => decide
    | some n => exact (hcount n rfl).1
  have hrange : Config.InRange ⟨tickRate, ⟨none, some base, count⟩, instruments⟩ := by
    refine ⟨hrate, fun n hn => ?_⟩
    cases hn with
    | counted => exact (hcount n rfl).2
  obtain ⟨bank, hbank⟩ := Config.exists_soundbank_iff.2
    ⟨hrange, ⟨_, hnotes, scale_ne_nil base hpos, not_descendsAt_scale base _⟩, hinstruments, hfits⟩
  have hfrequencies := (Config.soundbank_eq_ok.1 hbank).2.1
  rw [Config.frequencies_of_describes hnotes] at hfrequencies
  exact ⟨bank, hbank, (Except.ok.inj hfrequencies).symm⟩

/-- Three notes from 440 Hz, and sixty silent ones over NaN. -/
theorem scale_is_tuning_concert_pitch :
    (∃ t, Tuning.ofFrequencies (scale (ofBits 0x43DC0000) 3) = .ok t ∧ t.frequencies = [440, 466, 494]) ∧
      ∃ bank, Config.soundbank ⟨60, ⟨none, some (ofBits 0x7FC00000), none⟩, [⟨3, 0⟩]⟩ = .ok bank ∧
        bank.tuning.frequencies = List.replicate 60 0 := by
  have hscale : scale (ofBits 0x43DC0000) 3 = [440, 466, 494] := by decide +kernel
  have hsilent : scale (ofBits 0x7FC00000) 60 = List.replicate 60 0 := by decide +kernel
  obtain ⟨t, ht, hfrequencies⟩ := (scale_is_tuning (ofBits 0x43DC0000)).2.1 3 (by decide)
  obtain ⟨bank, hbank, hbankFrequencies⟩ :=
    (scale_is_tuning (ofBits 0x7FC00000)).2.2 60 none [⟨3, 0⟩] (by decide) nofun (by decide)
      (fun i hi => by
        obtain rfl := List.mem_singleton.1 hi
        exact ⟨by decide, by decide⟩)
  exact ⟨⟨t, ht, hfrequencies.trans hscale⟩, bank, hbank, hbankFrequencies.trans hsilent⟩

end Chiptune.EqualTempered
