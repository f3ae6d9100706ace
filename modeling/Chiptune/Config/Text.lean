import Chiptune.Number.Word
import Chiptune.Log
import Chiptune.Config
import Chiptune.Toml.Document
/-!
# Configuration files

A configuration as TOML text:

    tick_rate = 60

    [notes]
    base_hz = 65.406
    count = 60

    [[instruments]]
    channel = 0
    mode = 2

Every key may be left out but an instrument's channel, and no other key may be there. A table may
also be written as an array of its values in the order above; elements past the last field are not
looked at. All that is wrong with a text gives the one fault `ConfigFault.invalid`.
-/
namespace Chiptune

open Toml

namespace Toml

/-- A whole number from 0 up to a limit. -/
def Value.natBelow? (limit : Nat) : Value → Option Nat
  | .integer (.ofNat n) => if n < limit then some n else none
  | _ => none

def Value.byte? (v : Value) : Option UInt8 := UInt8.ofNat <$> v.natBelow? 0x100

def Value.word16? (v : Value) : Option UInt16 := UInt16.ofNat <$> v.natBelow? 0x10000

/-- A size, a number of 64 bits. -/
def Value.size? (v : Value) : Option Nat := v.natBelow? word64Limit

/-- The lowest number of 64 bits with a sign, `-2 ^ 63`. -/
def lowest : Int := -0x8000000000000000

/-- A single-precision number, from a fraction or from a whole number of 64 bits with or without a
sign. -/
def Value.single? : Value → Option Binary32
  | .fraction d => d.toBinary32?
  | .integer n => if lowest ≤ n ∧ n < word64Limit then some (.ofInt n) else none
  | _ => none

/-- The elements of an array. -/
def Value.elements? : Value → Option (List Value)
  | .array items => some items
  | .tables items => some (items.map (.table .headed))
  | _ => none

/-- An array of like values. -/
def Value.list? {α : Type} (read : Value → Option α) (v : Value) : Option (List α) := do
  (← v.elements?).mapM read

/-- The value of a key, if the key is there. -/
def Entries.field? {α : Type} (entries : Entries) (key : String) (read : Value → Option α) :
    Option (Option α) :=
  match entries.get? key with
  | none => some none
  | some v => some <$> read v

/-- No keys but these. -/
def Entries.only (entries : Entries) (keys : List String) : Bool :=
  entries.all fun entry => keys.contains entry.1

end Toml

def NotesConfig.ofEntries (entries : Entries) : Option NotesConfig :=
  if entries.only ["frequencies", "base_hz", "count"] then do
    return {
      frequencies := ← entries.field? "frequencies" (·.list? Value.word16?)
      baseHz := ← entries.field? "base_hz" Value.single?
      count := ← entries.field? "count" Value.size? }
  else none

/-- The notes of a table, or of an array with all three fields. -/
def NotesConfig.ofValue : Value → Option NotesConfig
  | .table _ entries => ofEntries entries
  | .array (frequencies :: baseHz :: count :: _) => do
    return ⟨← frequencies.list? Value.word16?, ← baseHz.single?, ← count.size?⟩
  | _ => none

def InstrumentConfig.ofEntries (entries : Entries) : Option InstrumentConfig :=
  if entries.only ["channel", "mode"] then do
    let channel ← entries.field? "channel" Value.byte?
    let mode ← entries.field? "mode" Value.byte?
    return ⟨← channel, mode.getD 0⟩
  else none

/-- An instrument of a table or an array. -/
def InstrumentConfig.ofValue : Value → Option InstrumentConfig
  | .table _ entries => ofEntries entries
  | .array [channel] => do return ⟨← channel.byte?, 0⟩
  | .array (channel :: mode :: _) => do return ⟨← channel.byte?, ← mode.byte?⟩
  | _ => none

namespace Config

def ofEntries (entries : Entries) : Option Config :=
  if entries.only ["tick_rate", "notes", "instruments"] then do
    let d : Config := {}
    return {
      tickRate := (← entries.field? "tick_rate" (·.natBelow? 0x100000000)).getD d.tickRate
      notes := (← entries.field? "notes" NotesConfig.ofValue).getD d.notes
      instruments :=
        (← entries.field? "instruments" (·.list? InstrumentConfig.ofValue)).getD d.instruments }
  else none

/-- The configuration of a text, its tick rate and number of notes checked. -/
def ofText (text : String) : Except ConfigFault Config :=
  match Toml.parse text >>= ofEntries with
  | none => .error .invalid
  | some config =>
    match config.validate with
    | .ok _ => .ok config
    | .error e => .error e

def load (folder : Folder) (path : String) : Logged (Except ConfigFault Config) :=
  match folder.readText path with
  | .error e => ⟨.error (.read path e), []⟩
  | .ok text =>
    match ofText text with
    | .error e => ⟨.error e, []⟩
    | .ok config => ⟨.ok config, [.configLoaded path]⟩

end Config

end Chiptune
