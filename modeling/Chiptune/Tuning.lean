import Chiptune.TableFault
/-!
# Tunings

A tuning gives each note number a frequency in hertz. It is not empty and never decreases from one
note to the next; `Tuning.ofFrequencies` is the one way in and names the first fault.
-/
namespace Chiptune

/-- The first position, from `index` on, whose frequency is lower than the one before. `last` is the
frequency before `index`. -/
def firstDescent (last : UInt16) (index : Nat) : List UInt16 → Option Nat
  | [] => none
  | hz :: rest => if hz < last then some index else firstDescent hz (index + 1) rest

/-- The frequencies of notes 0, 1, 2, … -/
structure Tuning where
  /-- The frequency of note 0. -/
  first : UInt16
  /-- The frequencies of the notes above. -/
  rest : List UInt16
  /-- No neighbour is lower than the one before. -/
  ascending : firstDescent first 1 rest = none

namespace Tuning

/-- All frequencies in note order. -/
def frequencies (t : Tuning) : List UInt16 := t.first :: t.rest

def ofFrequencies : List UInt16 → Except TableFault Tuning
  | [] => .error .empty
  | hz :: rest =>
    match h : firstDescent hz 1 rest with
    | none => .ok ⟨hz, rest, h⟩
    | some index => .error (.notMonotonic index)

def size (t : Tuning) : Nat := t.frequencies.length

/-- The frequency of a note, if the tuning has it. -/
def get? (t : Tuning) (note : Nat) : Option UInt16 := t.frequencies[note]?

def has (t : Tuning) (note : UInt8) : Bool := note.toNat < t.size

/-- Sixty notes, C2 to B6, in frequencies rounded by ear. -/
def reference : Tuning where
  first := 65
  rest := [
    70, 75, 80, 85, 90, 95, 100, 105, 110, 115, 125,
    130, 140, 150, 160, 170, 180, 190, 200, 210, 220, 230, 250,
    260, 280, 290, 310, 330, 350, 370, 390, 410, 440, 460, 490,
    520, 550, 600, 620, 660, 700, 750, 780, 840, 880, 940, 980,
    1050, 1110, 1170, 1240, 1320, 1400, 1480, 1570, 1660, 1760, 1860, 1980]
  ascending := by decide

end Tuning

end Chiptune
