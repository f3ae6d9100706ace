import Chiptune.Soundbank
import Chiptune.Tuning.EqualTempered
import Chiptune.Folder
/-!
# Configurations

A configuration gives the tick rate of live playback and describes the sound bank: notes by their
frequencies or by a base frequency in equal temperament, and instruments by their codes. What is
missing is that of the reference.

`Config.soundbank` builds the described bank and names the first fault, in a fixed order: tick rate,
number of notes, notes described twice or by half, the notes themselves, the instruments.
-/
namespace Chiptune

/-- Why a configuration cannot be used. -/
inductive ConfigFault where
  | read (path : String) (cause : ReadFault)
  /-- The text is no configuration. -/
  | invalid
  | table (cause : TableFault)
  | zeroTickRate
  /-- Frequencies are given together with a base frequency or a count. -/
  | notesConflict
  /-- A count is given without a base frequency. -/
  | missingBase
  /-- More notes than a byte can number. -/
  | tooManyNotes (count : Nat)
deriving DecidableEq

def ConfigFault.message : ConfigFault → String
  | .read path cause => s!"failed to read {path}: {cause.message}"
  | .invalid => "invalid config"
  | .table cause => s!"invalid table: {cause.message}"
  | .zeroTickRate => "tick_rate must be greater than zero"
  | .notesConflict => "[notes] takes either `frequencies` or `base_hz` + `count`, not both"
  | .missingBase => "[notes] `count` needs a `base_hz`"
  | .tooManyNotes count => s!"{count} notes configured, at most 256 are addressable"

structure NotesConfig where
  frequencies : Option (List UInt16) := none
  baseHz : Option Binary32 := none
  count : Option Nat := none
deriving DecidableEq

/-- The codes of an instrument as described. -/
structure InstrumentConfig where
  channel : UInt8
  mode : UInt8 := 0
deriving DecidableEq

def InstrumentConfig.reference : List InstrumentConfig :=
  InstrumentBank.reference.instruments.map fun i => ⟨i.channel.code, i.duty.code⟩

structure Config where
  /-- Ticks per second of live playback. -/
  tickRate : Nat := 60
  notes : NotesConfig := {}
  instruments : List InstrumentConfig := InstrumentConfig.reference
deriving DecidableEq

namespace Config

/-- Notes that a byte can number. -/
def maxNotes : Nat := 256

/-- The number of notes described; frequencies go before a count. -/
def noteCount (c : Config) : Nat :=
  match c.notes.frequencies, c.notes.count with
  | some frequencies, _ => frequencies.length
  | none, some count => count
  | none, none => 0

/-- The tick rate and the number of notes are in range. -/
def validate (c : Config) : Except ConfigFault Unit :=
  if c.tickRate = 0 then .error .zeroTickRate
  else if maxNotes < c.noteCount then .error (.tooManyNotes c.noteCount)
  else .ok ()

/-- The frequencies described; a base frequency without a count gives as many notes as the reference
has. -/
def frequencies (c : Config) : Except ConfigFault (List UInt16) :=
  match c.notes.frequencies, c.notes.baseHz, c.notes.count with
  | some _, some _, _ => .error .notesConflict
  | some _, none, some _ => .error .notesConflict
  | some frequencies, none, none => .ok frequencies
  | none, some base, count => .ok (EqualTempered.scale base (count.getD Tuning.reference.size))
  | none, none, some _ => .error .missingBase
  | none, none, none => .ok Tuning.reference.frequencies

/-- A table, its fault being one of the configuration. -/
def tableOf {α : Type} : Except TableFault α → Except ConfigFault α
  | .ok a => .ok a
  | .error e => .error (.table e)

def soundbank (c : Config) : Except ConfigFault Soundbank := do
  c.validate
  let tuning ← tableOf (Tuning.ofFrequencies (← c.frequencies))
  let instruments ← tableOf (c.instruments.mapM fun i => Instrument.ofCodes i.channel i.mode)
  let bank ← tableOf (InstrumentBank.ofList instruments)
  return ⟨tuning, bank⟩

end Config

end Chiptune
