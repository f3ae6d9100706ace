/-!
# Faults of note and instrument tables
-/
namespace Chiptune

/-- The two fields of a configured instrument. -/
inductive InstrumentField where
  | channel
  | mode
deriving DecidableEq

def InstrumentField.name : InstrumentField → String
  | .channel => "channel"
  | .mode => "mode"

/-- Why a table is refused. -/
inductive TableFault where
  /-- There is nothing in it. -/
  | empty
  /-- The frequency at `index` is lower than the one before. -/
  | notMonotonic (index : Nat)
  /-- An instrument field is above 3. -/
  | outOfRange (field : InstrumentField) (value : UInt8)
deriving DecidableEq

def TableFault.message : TableFault → String
  | .empty => "Table has no entries"
  | .notMonotonic index => s!"Note table decreases at index {index}"
  | .outOfRange field value => s!"Instrument {field.name} {value} is out of range (0-3)"

end Chiptune
