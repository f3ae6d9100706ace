import Mathlib.Tactic.Common
import Chiptune.Config
/-!
# Accepted configurations

The configurations that describe a sound bank, and which one (`soundbank_eq_ok`). Main statement
`tuning_size_le`: its tuning has no more notes than a byte can number.
-/
namespace Chiptune

/-- A frequency does not descend to itself. -/
theorem firstDescent_replicate (hz : UInt16) (index n : Nat) :
    firstDescent hz index (List.replicate n hz) = none := by
  induction n generalizing index with
  | zero => rfl
  | succ n ih =>
    rw [List.replicate_succ, firstDescent, if_neg (UInt16.lt_irrefl hz)]
    exact ih (index + 1)

/-- The tuning of a list of frequencies has just these; being one already, it has passed the checks. -/
theorem Tuning.ofFrequencies_eq_ok {frequencies : List UInt16} {t : Tuning} :
    ofFrequencies frequencies = .ok t ↔ t.frequencies = frequencies := by
  constructor
  · intro h
    cases frequencies with
    | nil => cases h
    | cons hz rest =>
      simp only [ofFrequencies] at h
      split at h
      · cases h
        rfl
      · cases h
  · rintro rfl
    simp only [Tuning.frequencies, ofFrequencies]
    split
    · rfl
    · rename_i hdescent
      rw [t.ascending] at hdescent
      cases hdescent

theorem InstrumentBank.ofList_eq_ok {instruments : List Instrument} {b : InstrumentBank} :
    ofList instruments = .ok b ↔ b.instruments = instruments := by
  constructor
  · intro h
    unfold ofList at h
    split at h
    · cases h
      rfl
    · cases h
  · rintro rfl
    exact dif_pos b.nonempty

/-- What succeeds has succeeded in its first part. -/
theorem exists_ok_of_bind {ε α β : Type} {first : Except ε α} {next : α → Except ε β} {b : β}
    (h : first >>= next = .ok b) : ∃ a, first = .ok a ∧ next a = .ok b := by
  cases first with
  | error e => cases h
  | ok a => exact ⟨a, rfl, h⟩

namespace Config

variable {c : Config} {bank : Soundbank}

theorem tableOf_eq_ok {α : Type} {r : Except TableFault α} {a : α} : tableOf r = .ok a ↔ r = .ok a := by
  cases r with
  | ok b => simp [tableOf]
  | error e => simp [tableOf]

theorem validate_eq_ok : c.validate = .ok () ↔ 0 < c.tickRate ∧ c.noteCount ≤ maxNotes := by
  unfold validate
  split
  · simp only [reduceCtorEq, false_iff]
    omega
  · split
    · simp only [reduceCtorEq, false_iff]
      omega
    · simp only [true_iff]
      omega

/-- A configuration is accepted where tick rate and number of notes are in range and frequencies and
instruments are those of a tuning and a bank. -/
theorem soundbank_eq_ok :
    c.soundbank = .ok bank ↔
      c.validate = .ok () ∧ c.frequencies = .ok bank.tuning.frequencies ∧
        (c.instruments.mapM fun i => Instrument.ofCodes i.channel i.mode) = .ok bank.instruments.instruments := by
  constructor
  · intro h
    unfold soundbank at h
    obtain ⟨_, hvalid, h⟩ := exists_ok_of_bind h
    obtain ⟨frequencies, hfrequencies, h⟩ := exists_ok_of_bind h
    obtain ⟨tuning, htuning, h⟩ := exists_ok_of_bind h
    obtain ⟨instruments, hinstruments, h⟩ := exists_ok_of_bind h
    obtain ⟨b, hb, h⟩ := exists_ok_of_bind h
    cases h
    rw [hfrequencies, tableOf_eq_ok.1 hinstruments, Tuning.ofFrequencies_eq_ok.1 (tableOf_eq_ok.1 htuning),
      InstrumentBank.ofList_eq_ok.1 (tableOf_eq_ok.1 hb)]
    exact ⟨hvalid, rfl, rfl⟩
  · rintro ⟨hvalid, hfrequencies, hinstruments⟩
    have htuning := Tuning.ofFrequencies_eq_ok.2 (Eq.refl bank.tuning.frequencies)
    have hbank := InstrumentBank.ofList_eq_ok.2 (Eq.refl bank.instruments.instruments)
    simp only [soundbank, hvalid, hfrequencies, hinstruments, tableOf, htuning, hbank, Bind.bind, Except.bind]
    rfl

/-- The frequencies described are as many as the notes counted, or as the reference has. -/
theorem length_le_of_frequencies {frequencies : List UInt16} (h : c.frequencies = .ok frequencies)
    (hcount : c.noteCount ≤ maxNotes) : frequencies.length ≤ maxNotes := by
  have href : Tuning.reference.size ≤ maxNotes := by decide
  unfold Config.frequencies at h
  unfold noteCount at hcount
  split at h
  · cases h
  · cases h
  · rename_i hlist _ _
    cases h
    simpa only [hlist] using hcount
  · rename_i base _ hlist _
    cases h
    rw [EqualTempered.scale, List.length_map, List.length_range]
    cases hn : c.notes.count with
    | none => exact href
    | some n => simpa only [hlist, hn, Option.getD_some] using hcount
  · cases h
  · cases h
    exact href

/-- **An accepted tuning numbers its notes by bytes.** -/
theorem tuning_size_le (h : c.soundbank = .ok bank) : bank.tuning.size ≤ maxNotes := by
  obtain ⟨hvalid, hfrequencies, -⟩ := soundbank_eq_ok.1 h
  exact length_le_of_frequencies hfrequencies (validate_eq_ok.1 hvalid).2

end Config

end Chiptune
