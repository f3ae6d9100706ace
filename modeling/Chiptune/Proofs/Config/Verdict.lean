import Mathlib
import Chiptune.Proofs.Config
import Chiptune.Proofs.Instrument
import Chiptune.Proofs.Player
import Chiptune.Proofs.Tuning.EqualTempered
/-!
# What is wrong with a configuration

`Verdict` says what a configuration describes, or the first thing that is wrong with it, without a word of how
this is found out. Making the sound bank answers just that (`soundbank_eq_iff`); a check of the configuration
alone finds what is out of range (`validate_eq_error`).

Main statement `soundbank_names_first_fault`.
-/
namespace Chiptune

/-! ## Descriptions -/

/-- The number of notes in a description: that of the frequencies listed, or else the count. -/
inductive NotesConfig.Counts : NotesConfig → Nat → Prop where
  | listed (frequencies : List UInt16) (base : Option Binary32) (count : Option Nat) :
      Counts ⟨some frequencies, base, count⟩ frequencies.length
  | counted (base : Option Binary32) (n : Nat) : Counts ⟨none, base, some n⟩ n

/-- The frequencies that a description stands for. -/
inductive NotesConfig.Describes : NotesConfig → List UInt16 → Prop where
  | listed (frequencies : List UInt16) : Describes ⟨some frequencies, none, none⟩ frequencies
  | tempered {base : Binary32} {n : Nat} {frequencies : List UInt16} (h : EqualTempered.Notes base n frequencies) :
      Describes ⟨none, some base, some n⟩ frequencies
  | uncounted {base : Binary32} {frequencies : List UInt16} (h : EqualTempered.Notes base 60 frequencies) :
      Describes ⟨none, some base, none⟩ frequencies
  | nothing : Describes ⟨none, none, none⟩ Tuning.reference.frequencies

/-- A code that is no code of an instrument; the channel goes before the mode. -/
inductive InstrumentConfig.TooWide : InstrumentConfig → InstrumentField → UInt8 → Prop where
  | channel {i : InstrumentConfig} (h : 3 < i.channel) : TooWide i .channel i.channel
  | mode {i : InstrumentConfig} (hchannel : i.channel ≤ 3) (h : 3 < i.mode) : TooWide i .mode i.mode

/-- Both codes are those of an instrument. -/
def InstrumentConfig.Fits (i : InstrumentConfig) : Prop := i.channel ≤ 3 ∧ i.mode ≤ 3

/-- The instrument has the codes described. -/
def InstrumentConfig.Describes (i : InstrumentConfig) (instrument : Instrument) : Prop :=
  instrument.channel.code = i.channel ∧ instrument.duty.code = i.mode

theorem NotesConfig.Describes.notes_of_base {notes : NotesConfig} {base : Binary32} {frequencies : List UInt16}
    (h : notes.Describes frequencies) (hbase : notes.baseHz = some base) :
    EqualTempered.Notes base (notes.count.getD 60) frequencies := by
  cases h with
  | listed => cases hbase
  | tempered h =>
    cases hbase
    exact h
  | uncounted h =>
    cases hbase
    exact h
  | nothing => cases hbase

/-- A tuning passes the checks again. -/
theorem Tuning.ofFrequencies_frequencies (t : Tuning) : ofFrequencies t.frequencies = .ok t :=
  ofFrequencies_eq_ok.2 rfl

theorem InstrumentBank.ofList_instruments (b : InstrumentBank) : ofList b.instruments = .ok b :=
  ofList_eq_ok.2 rfl

namespace Config

/-- Tick rate or number of notes is out of range; the tick rate goes first. -/
inductive OutOfRange (c : Config) : ConfigFault → Prop where
  | tickRate (h : c.tickRate = 0) : OutOfRange c .zeroTickRate
  | notes {n : Nat} (h : 0 < c.tickRate) (hn : c.notes.Counts n) (hlimit : 256 < n) :
      OutOfRange c (.tooManyNotes n)

/-- Tick rate and number of notes are in range. -/
structure InRange (c : Config) : Prop where
  tickRate : 0 < c.tickRate
  notes : ∀ n, c.notes.Counts n → n ≤ 256

/-- What there is to say about a configuration: the sound bank that it describes, or the first thing that is
wrong with it. -/
inductive Verdict (c : Config) : Except ConfigFault Soundbank → Prop where
  | outOfRange {fault : ConfigFault} (h : OutOfRange c fault) : Verdict c (.error fault)
  | notesConflict {frequencies : List UInt16} (h : InRange c) (hlist : c.notes.frequencies = some frequencies)
      (hother : c.notes.baseHz ≠ none ∨ c.notes.count ≠ none) : Verdict c (.error .notesConflict)
  | missingBase {n : Nat} (h : InRange c) (hnotes : c.notes = ⟨none, none, some n⟩) :
      Verdict c (.error .missingBase)
  | noNotes (h : InRange c) (hnotes : c.notes.Describes []) : Verdict c (.error (.table .empty))
  | descent {frequencies : List UInt16} {i : Nat} (h : InRange c) (hnotes : c.notes.Describes frequencies)
      (hdescent : IsLeast {j | DescendsAt frequencies j} i) : Verdict c (.error (.table (.notMonotonic i)))
  | tooWide {tuning : Tuning} {before after : List InstrumentConfig} {i : InstrumentConfig}
      {field : InstrumentField} {value : UInt8} (h : InRange c)
      (hnotes : c.notes.Describes tuning.frequencies) (hinstruments : c.instruments = before ++ i :: after)
      (hbefore : ∀ j ∈ before, j.Fits) (hi : i.TooWide field value) :
      Verdict c (.error (.table (.outOfRange field value)))
  | noInstruments {tuning : Tuning} (h : InRange c) (hnotes : c.notes.Describes tuning.frequencies)
      (hinstruments : c.instruments = []) : Verdict c (.error (.table .empty))
  | accepted {bank : Soundbank} (h : InRange c) (hnotes : c.notes.Describes bank.tuning.frequencies)
      (hinstruments : List.Forall₂ InstrumentConfig.Describes c.instruments bank.instruments.instruments) :
      Verdict c (.ok bank)

variable {c : Config} {fault : ConfigFault} {n : Nat} {frequencies : List UInt16}

/-! ## Range -/

theorem noteCount_of_counts (h : c.notes.Counts n) : c.noteCount = n := by
  unfold noteCount
  generalize c.notes = notes at h
  cases h <;> rfl

/-- Notes that are not counted are none. -/
theorem counts_noteCount (h : 0 < c.noteCount) : c.notes.Counts c.noteCount := by
  obtain ⟨tickRate, ⟨list, base, count⟩, instruments⟩ := c
  cases list with
  | some frequencies => exact .listed frequencies base count
  | none =>
    cases count with
    | some n => exact .counted base n
    | none => exact absurd h (Nat.lt_irrefl 0)

theorem inRange_iff : c.InRange ↔ c.validate = .ok () := by
  rw [validate_eq_ok]
  constructor
  · rintro ⟨hrate, hnotes⟩
    refine ⟨hrate, ?_⟩
    by_cases hcount : 0 < c.noteCount
    · exact hnotes _ (counts_noteCount hcount)
    · omega
  · rintro ⟨hrate, hcount⟩
    exact ⟨hrate, fun n hn => noteCount_of_counts hn ▸ hcount⟩

theorem validate_of_outOfRange (h : c.OutOfRange fault) : c.validate = .error fault := by
  cases h with
  | tickRate h => exact if_pos h
  | notes h hn hlimit =>
    obtain rfl := noteCount_of_counts hn
    exact (if_neg (Nat.ne_of_gt h)).trans (if_pos hlimit)

/-- **A check of the configuration alone finds what is out of range.** -/
theorem validate_eq_error : c.validate = .error fault ↔ c.OutOfRange fault := by
  refine ⟨fun h => ?_, validate_of_outOfRange⟩
  unfold validate at h
  split at h
  · rename_i hrate
    cases h
    exact .tickRate hrate
  · rename_i hrate
    split at h
    · rename_i hlimit
      cases h
      exact .notes (Nat.pos_of_ne_zero hrate) (counts_noteCount (Nat.zero_lt_of_lt hlimit)) hlimit
    · cases h

/-! ## Notes -/

theorem frequencies_of_describes (h : c.notes.Describes frequencies) : c.frequencies = .ok frequencies := by
  unfold Config.frequencies
  generalize c.notes = notes at h
  cases h with
  | listed => rfl
  | tempered h => rw [h.eq_scale]; rfl
  | uncounted h => rw [h.eq_scale]; rfl
  | nothing => rfl

/-- A description that stands for no frequencies is given twice or by half. -/
theorem describes_cases (notes : NotesConfig) :
    (∃ frequencies, notes.Describes frequencies) ∨
      (∃ frequencies, notes.frequencies = some frequencies ∧ (notes.baseHz ≠ none ∨ notes.count ≠ none)) ∨
      ∃ n, notes = ⟨none, none, some n⟩ := by
  match notes with
  | ⟨some frequencies, none, none⟩ => exact .inl ⟨_, .listed frequencies⟩
  | ⟨some frequencies, some _, _⟩ => exact .inr (.inl ⟨frequencies, rfl, .inl nofun⟩)
  | ⟨some frequencies, none, some _⟩ => exact .inr (.inl ⟨frequencies, rfl, .inr nofun⟩)
  | ⟨none, some base, some n⟩ => exact .inl ⟨_, .tempered (EqualTempered.notes_scale base n)⟩
  | ⟨none, some base, none⟩ => exact .inl ⟨_, .uncounted (EqualTempered.notes_scale base 60)⟩
  | ⟨none, none, some n⟩ => exact .inr (.inr ⟨n, rfl⟩)
  | ⟨none, none, none⟩ => exact .inl ⟨_, .nothing⟩

/-! ## Instruments -/

theorem ofCodes_eq_error_iff_tooWide {i : InstrumentConfig} {cause : TableFault} :
    Instrument.ofCodes i.channel i.mode = .error cause ↔
      ∃ field value, i.TooWide field value ∧ cause = .outOfRange field value := by
  rw [Instrument.ofCodes_eq_error]
  constructor
  · rintro (⟨hchannel, rfl⟩ | ⟨hchannel, hmode, rfl⟩)
    · exact ⟨.channel, i.channel, .channel hchannel, rfl⟩
    · exact ⟨.mode, i.mode, .mode hchannel hmode, rfl⟩
  · rintro ⟨field, value, hwide, rfl⟩
    cases hwide with
    | channel hchannel => exact .inl ⟨hchannel, rfl⟩
    | mode hchannel hmode => exact .inr ⟨hchannel, hmode, rfl⟩

theorem fits_iff_ofCodes {i : InstrumentConfig} :
    i.Fits ↔ ∃ instrument, Instrument.ofCodes i.channel i.mode = .ok instrument := by
  constructor
  · rintro ⟨hchannel, hmode⟩
    exact ⟨⟨.ofBits i.channel, .ofBits i.mode⟩,
      Instrument.ofCodes_eq_ok.2 ⟨Channel.code_ofBits hchannel, Duty.code_ofBits hmode⟩⟩
  · rintro ⟨instrument, h⟩
    obtain ⟨hchannel, hmode⟩ := Instrument.ofCodes_eq_ok.1 h
    exact ⟨hchannel ▸ instrument.channel.code_le, hmode ▸ instrument.duty.code_le⟩

/-- The instruments of a configuration, read in order. -/
def instrumentList (c : Config) : Except TableFault (List Instrument) :=
  c.instruments.mapM fun i => Instrument.ofCodes i.channel i.mode

theorem instrumentList_eq_ok {instruments : List Instrument} :
    c.instrumentList = .ok instruments ↔
      List.Forall₂ InstrumentConfig.Describes c.instruments instruments := by
  rw [instrumentList, mapM_eq_ok]
  simp only [Instrument.ofCodes_eq_ok]
  rfl

theorem instrumentList_eq_error {cause : TableFault} :
    c.instrumentList = .error cause ↔
      ∃ before i after, c.instruments = before ++ i :: after ∧ (∀ j ∈ before, j.Fits) ∧
        ∃ field value, i.TooWide field value ∧ cause = .outOfRange field value := by
  rw [instrumentList, mapM_eq_error]
  simp only [ofCodes_eq_error_iff_tooWide, fits_iff_ofCodes]

/-! ## The sound bank follows the verdict -/

/-- A configuration in range is as good as its notes and its instruments. -/
theorem soundbank_eq (h : c.InRange) (hnotes : c.notes.Describes frequencies) :
    c.soundbank =
      match Tuning.ofFrequencies frequencies with
      | .error cause => .error (.table cause)
      | .ok tuning =>
        match c.instrumentList with
        | .error cause => .error (.table cause)
        | .ok instruments =>
          match InstrumentBank.ofList instruments with
          | .error cause => .error (.table cause)
          | .ok bank => .ok ⟨tuning, bank⟩ := by
  simp only [soundbank, inRange_iff.1 h, frequencies_of_describes hnotes, Bind.bind, Except.bind]
  rw [← instrumentList]
  cases Tuning.ofFrequencies frequencies with
  | error cause => rfl
  | ok tuning =>
    cases c.instrumentList with
    | error cause => rfl
    | ok instruments =>
      dsimp only [tableOf]
      cases InstrumentBank.ofList instruments with
      | error cause => rfl
      | ok bank => rfl

theorem frequencies_of_conflict (hlist : c.notes.frequencies = some frequencies)
    (hother : c.notes.baseHz ≠ none ∨ c.notes.count ≠ none) : c.frequencies = .error .notesConflict := by
  unfold Config.frequencies
  generalize c.notes = notes at hlist hother
  match notes with
  | ⟨some _, some _, _⟩ => rfl
  | ⟨some _, none, some _⟩ => rfl
  | ⟨some _, none, none⟩ => exact (hother.elim (· rfl) (· rfl)).elim
  | ⟨none, _, _⟩ => cases hlist

theorem soundbank_of_frequencies (h : c.InRange) (hnotes : c.frequencies = .error fault) :
    c.soundbank = .error fault := by
  simp only [soundbank, inRange_iff.1 h, hnotes, Bind.bind, Except.bind]

/-- The first table of a description is made where its frequencies are those of a tuning. -/
theorem soundbank_of_tuning {tuning : Tuning} (h : c.InRange) (hnotes : c.notes.Describes tuning.frequencies) :
    c.soundbank =
      match c.instrumentList with
      | .error cause => .error (.table cause)
      | .ok instruments =>
        match InstrumentBank.ofList instruments with
        | .error cause => .error (.table cause)
        | .ok bank => .ok ⟨tuning, bank⟩ := by
  rw [soundbank_eq h hnotes, tuning.ofFrequencies_frequencies]

/-- **What the verdict says is what is made of a configuration.** -/
theorem soundbank_of_verdict {r : Except ConfigFault Soundbank} (h : c.Verdict r) : c.soundbank = r := by
  cases h with
  | outOfRange h =>
    simp only [soundbank, validate_of_outOfRange h, Bind.bind, Except.bind]
  | notesConflict h hlist hother => exact soundbank_of_frequencies h (frequencies_of_conflict hlist hother)
  | missingBase h hnotes =>
    refine soundbank_of_frequencies h ?_
    rw [Config.frequencies, hnotes]
  | noNotes h hnotes => rw [soundbank_eq h hnotes, Tuning.ofFrequencies]
  | descent h hnotes hdescent =>
    rw [soundbank_eq h hnotes, Tuning.ofFrequencies_eq_error.2 (.inr ⟨_, hdescent, rfl⟩)]
  | tooWide h hnotes hinstruments hbefore hi =>
    rw [soundbank_of_tuning h hnotes,
      instrumentList_eq_error.2 ⟨_, _, _, hinstruments, hbefore, _, _, hi, rfl⟩]
  | noInstruments h hnotes hinstruments =>
    rw [soundbank_of_tuning h hnotes, instrumentList, hinstruments]
    rfl
  | @accepted bank h hnotes hinstruments =>
    rw [soundbank_of_tuning h hnotes, instrumentList_eq_ok.2 hinstruments]
    simp only [bank.instruments.ofList_instruments]

theorem exists_verdict (c : Config) : ∃ r, c.Verdict r := by
  cases hvalid : c.validate with
  | error fault => exact ⟨_, .outOfRange (validate_eq_error.1 hvalid)⟩
  | ok =>
    have h : c.InRange := inRange_iff.2 hvalid
    rcases describes_cases c.notes with ⟨frequencies, hnotes⟩ | ⟨frequencies, hlist, hother⟩ | ⟨n, hnotes⟩
    · cases htuning : Tuning.ofFrequencies frequencies with
      | error cause =>
        rcases Tuning.ofFrequencies_eq_error.1 htuning with ⟨rfl, rfl⟩ | ⟨i, hdescent, rfl⟩
        · exact ⟨_, .noNotes h hnotes⟩
        · exact ⟨_, .descent h hnotes hdescent⟩
      | ok tuning =>
        obtain rfl := Tuning.ofFrequencies_eq_ok.1 htuning
        cases hlist : c.instrumentList with
        | error cause =>
          obtain ⟨before, i, after, hinstruments, hbefore, field, value, hi, rfl⟩ :=
            instrumentList_eq_error.1 hlist
          exact ⟨_, .tooWide h hnotes hinstruments hbefore hi⟩
        | ok instruments =>
          have hdescribed := instrumentList_eq_ok.1 hlist
          cases instruments with
          | nil => exact ⟨_, .noInstruments h hnotes (List.forall₂_nil_right_iff.1 hdescribed)⟩
          | cons i instruments =>
            exact ⟨.ok ⟨tuning, ⟨i :: instruments, Nat.succ_pos _⟩⟩, .accepted h hnotes hdescribed⟩
    · exact ⟨_, .notesConflict h hlist hother⟩
    · exact ⟨_, .missingBase h hnotes⟩

theorem soundbank_eq_iff {r : Except ConfigFault Soundbank} : c.soundbank = r ↔ c.Verdict r := by
  refine ⟨?_, soundbank_of_verdict⟩
  rintro rfl
  obtain ⟨r, hr⟩ := exists_verdict c
  rwa [soundbank_of_verdict hr]

/-- A configuration is accepted where nothing is wrong with it. -/
theorem exists_soundbank_iff :
    (∃ bank, c.soundbank = .ok bank) ↔
      c.InRange ∧
        (∃ frequencies, c.notes.Describes frequencies ∧ frequencies ≠ [] ∧ ∀ i, ¬ DescendsAt frequencies i) ∧
        c.instruments ≠ [] ∧ ∀ i ∈ c.instruments, i.Fits := by
  constructor
  · rintro ⟨bank, hbank⟩
    cases soundbank_eq_iff.1 hbank with
    | accepted h hnotes hinstruments =>
      have hbank := bank.instruments.nonempty
      have htuning := Tuning.exists_ofFrequencies_eq_ok.1 ⟨_, bank.tuning.ofFrequencies_frequencies⟩
      refine ⟨h, ⟨_, hnotes, htuning⟩, ?_, ?_⟩
      · rintro hnil
        rw [hnil, List.forall₂_nil_left_iff] at hinstruments
        rw [hinstruments] at hbank
        exact Nat.lt_irrefl 0 hbank
      · simp only [fits_iff_ofCodes]
        exact exists_mapM_eq_ok.1 ⟨_, instrumentList_eq_ok.2 hinstruments⟩
  · rintro ⟨h, ⟨frequencies, hnotes, htuning⟩, hinstruments, hfits⟩
    obtain ⟨tuning, ht⟩ := Tuning.exists_ofFrequencies_eq_ok.2 htuning
    obtain rfl := Tuning.ofFrequencies_eq_ok.1 ht
    simp only [fits_iff_ofCodes] at hfits
    obtain ⟨instruments, hlist⟩ := exists_mapM_eq_ok.2 hfits
    have hdescribed := instrumentList_eq_ok.1 hlist
    have hlength := hdescribed.length_eq
    have hnonempty : 0 < instruments.length := hlength ▸ List.length_pos_iff.2 hinstruments
    exact ⟨⟨tuning, ⟨instruments, hnonempty⟩⟩, soundbank_of_verdict (.accepted h hnotes hdescribed)⟩

/-- The notes of an accepted configuration with a base frequency, sixty if they are not counted. -/
theorem notes_of_base {bank : Soundbank} {base : Binary32} (hbank : c.soundbank = .ok bank)
    (hbase : c.notes.baseHz = some base) :
    EqualTempered.Notes base (c.notes.count.getD 60) bank.tuning.frequencies := by
  cases soundbank_eq_iff.1 hbank with
  | accepted h hnotes hinstruments => exact hnotes.notes_of_base hbase

/-- **A configuration is accepted, or refused for the first thing that is wrong with it.** It is accepted
exactly where nothing is wrong, whatever is written in the fields; a check of the configuration alone finds
what is out of range and nothing else. The tables of an accepted configuration pass their checks whenever they
are made again, and they have between 1 and 256 notes. Over a base frequency there are as many notes as are
counted, or sixty, and note `i` is the base times two to the power of a twelfth of `i`. A player is made of a
configuration exactly where it is accepted, and has just its tables. -/
theorem soundbank_names_first_fault (c : Config) :
    (∀ r, c.soundbank = r ↔ c.Verdict r) ∧
    ((∃ bank, c.soundbank = .ok bank) ↔
      c.InRange ∧
        (∃ frequencies, c.notes.Describes frequencies ∧ frequencies ≠ [] ∧ ∀ i, ¬ DescendsAt frequencies i) ∧
        c.instruments ≠ [] ∧ ∀ i ∈ c.instruments, i.Fits) ∧
    (∀ fault, c.validate = .error fault ↔ c.OutOfRange fault) ∧
    (∀ bank, c.soundbank = .ok bank →
      Tuning.ofFrequencies bank.tuning.frequencies = .ok bank.tuning ∧
      InstrumentBank.ofList bank.instruments.instruments = .ok bank.instruments ∧
      1 ≤ bank.tuning.size ∧ bank.tuning.size ≤ 256) ∧
    (∀ bank base, c.soundbank = .ok bank → c.notes.baseHz = some base →
      bank.tuning.size = c.notes.count.getD 60 ∧
      ∀ i < bank.tuning.size,
        bank.tuning.get? i = some (base * EqualTempered.power (.ofNat i / .ofNat 12)).toWord16) ∧
    (∀ fault, Player.new c = .error fault ↔ ∃ cause, fault = .config cause ∧ c.Verdict (.error cause)) ∧
    ∀ bank, c.soundbank = .ok bank →
      ∃ p, Player.new c = .ok p ∧ p.config = c ∧ p.bank = bank ∧ p.parts = [] := by
  refine ⟨fun r => soundbank_eq_iff, exists_soundbank_iff, fun fault => validate_eq_error, ?_, ?_, ?_, ?_⟩
  · intro bank hbank
    exact ⟨bank.tuning.ofFrequencies_frequencies, bank.instruments.ofList_instruments, Nat.succ_pos _,
      tuning_size_le hbank⟩
  · intro bank base hbank hbase
    have hnotes := notes_of_base hbank hbase
    exact ⟨hnotes.length_eq, fun i hi => hnotes.note_eq i (hi.trans_eq hnotes.length_eq)⟩
  · intro fault
    simp only [Player.new_eq_error, soundbank_eq_iff]
  · intro bank hbank
    exact ⟨⟨c, bank, [], hbank, by decide⟩, Player.new_eq_ok.2 ⟨rfl, rfl⟩, rfl, rfl, rfl⟩

/-- A short list of frequencies next to the greatest count; a list that descends twice, with a mode too wide
beside it; and two notes for one instrument. Over a base of 440 Hz three notes that are counted, and over one of
65.406 Hz sixty that are not, the last of them B6. -/
theorem soundbank_names_first_fault_conflict :
    let both : Config := { notes := ⟨some [440], none, some (2 ^ 64 - 1)⟩ }
    let falling : Config := { notes := ⟨some [300, 200, 100], none, none⟩, instruments := [⟨0, 9⟩] }
    let small : Config := { tickRate := 1, notes := ⟨some [220, 440], none, none⟩, instruments := [⟨1, 3⟩] }
    let counted : Config := { notes := ⟨none, some (.ofBits 0x43DC0000), some 3⟩, instruments := [⟨3, 0⟩] }
    let uncounted : Config := { notes := ⟨none, some (.ofBits 0x4282CFDF), none⟩, instruments := [⟨0, 2⟩] }
    both.soundbank = .error .notesConflict ∧ falling.soundbank = .error (.table (.notMonotonic 1)) ∧
      (∃ bank p, small.soundbank = .ok bank ∧ bank.tuning.size ≤ 256 ∧ Player.new small = .ok p ∧
        p.bank = bank) ∧
      (∃ bank, counted.soundbank = .ok bank ∧ bank.tuning.frequencies = [440, 466, 494]) ∧
      ∃ bank, uncounted.soundbank = .ok bank ∧ bank.tuning.size = 60 ∧ bank.tuning.get? 59 = some 1976 := by
  intro both falling small counted uncounted
  have hboth : both.InRange := ⟨by decide, fun n hn => by cases hn; decide⟩
  have hfalling : falling.InRange := ⟨by decide, fun n hn => by cases hn; decide⟩
  have hsmall : small.InRange := ⟨by decide, fun n hn => by cases hn; decide⟩
  have hcounted : counted.InRange := ⟨by decide, fun n hn => by cases hn; decide⟩
  have huncounted : uncounted.InRange := ⟨by decide, fun n hn => by cases hn⟩
  have hdescent : IsLeast {j | DescendsAt [300, 200, 100] j} 1 :=
    ⟨descendsAt_cons_one.2 (by decide), fun j hj => Nat.pos_of_ne_zero fun h => not_descendsAt_zero (h ▸ hj)⟩
  have hascending : ∀ i, ¬ DescendsAt [220, 440] i := by
    rintro (_ | _ | i)
    · exact not_descendsAt_zero
    · exact fun h => absurd (descendsAt_cons_one.1 h) (by decide)
    · exact fun h => not_descendsAt_singleton ((descendsAt_cons_succ (Nat.succ_pos i)).1 h)
  have hthree : EqualTempered.Notes (.ofBits 0x43DC0000) 3 [440, 466, 494] := ⟨rfl, by decide +kernel⟩
  refine ⟨((soundbank_names_first_fault both).1 _).2 (.notesConflict hboth rfl (.inr nofun)),
    ((soundbank_names_first_fault falling).1 _).2 (.descent hfalling (.listed _) hdescent), ?_, ?_, ?_⟩
  · obtain ⟨-, haccepted, -, htables, -, -, hplayer⟩ := soundbank_names_first_fault small
    obtain ⟨bank, hbank⟩ :=
      haccepted.2 ⟨hsmall, ⟨[220, 440], .listed _, nofun, hascending⟩, nofun, by simp [small, InstrumentConfig.Fits]⟩
    obtain ⟨p, hp, -, hpbank, -⟩ := hplayer bank hbank
    exact ⟨bank, p, hbank, (htables bank hbank).2.2.2, hp, hpbank⟩
  · let bank : Soundbank := ⟨⟨440, [466, 494], by decide⟩, ⟨[⟨.noise, .eighth⟩], by decide⟩⟩
    have hbank : counted.soundbank = .ok bank :=
      ((soundbank_names_first_fault counted).1 _).2 (.accepted hcounted (.tempered hthree) (.cons ⟨rfl, rfl⟩ .nil))
    exact ⟨bank, hbank, rfl⟩
  · obtain ⟨-, haccepted, -, -, hnotes, -⟩ := soundbank_names_first_fault uncounted
    obtain ⟨bank, hbank⟩ := haccepted.2
      ⟨huncounted, ⟨_, .uncounted (EqualTempered.notes_scale _ 60), EqualTempered.scale_ne_nil _ (by decide),
        EqualTempered.not_descendsAt_scale _ 60⟩, nofun, by simp [uncounted, InstrumentConfig.Fits]⟩
    obtain ⟨hsize, hnote⟩ := hnotes bank _ hbank rfl
    refine ⟨bank, hbank, hsize, ?_⟩
    rw [hnote 59 (hsize ▸ by decide)]
    decide +kernel

end Config

end Chiptune
