import Chiptune.Number.Word
import Chiptune.Tuning
/-!
# Track entries

A track is a run of 3-byte entries: a note number, a duration and a byte of flags that playback does
not use. Two note numbers are reserved: `Entry.endMark` sends the track back to its start, and
`Entry.emptyMark` marks an unused entry.

Entries are reached in two ways, by position (`Entry.read`) and all in order (`Entry.all`). Positions
are numbers of 64 bits; one whose bytes have no address is refused like one outside the data.
-/
namespace Chiptune

/-- A note number, a duration in ticks and flags. -/
structure Entry where
  note : UInt8
  duration : UInt8
  flags : UInt8
deriving DecidableEq

/-- What an entry stands for under a tuning. -/
inductive Role where
  | note (number : UInt8)
  | rest
  | endMark
  | empty
deriving DecidableEq

/-- Only notes are heard. -/
def Role.isAudible : Role → Bool
  | note _ => true
  | rest | endMark | empty => false

namespace Entry

def size : Nat := 3

/-- The note number that restarts the track. -/
def endMark : UInt8 := 0xFE

/-- The note number of an unused entry. -/
def emptyMark : UInt8 := 0xFF

/-- The entry that restarts the track and does not wait. -/
def restart : Entry := ⟨endMark, 0, 0⟩

def toBytes (e : Entry) : List UInt8 := [e.note, e.duration, e.flags]

/-- The entry stored from `start` on. -/
def ofBytes (data : Array UInt8) (start : Nat) (h : start + size ≤ data.size) : Entry :=
  have : start + 3 ≤ data.size := h
  ⟨data[start], data[start + 1], data[start + 2]⟩

/-- The entry at a position, if it lies wholly inside the data. -/
def read (data : Array UInt8) (index : Nat) : Option Entry := do
  let start ← word64? (index * size)
  let _ ← word64? (start + size)
  if h : start + size ≤ data.size then some (ofBytes data start h) else none

/-- The entries of a byte sequence, put behind `done`; one or two bytes at the end are left out. -/
def collect (done : Array Entry) : List UInt8 → Array Entry
  | note :: duration :: flags :: rest => collect (done.push ⟨note, duration, flags⟩) rest
  | _ => done

def all (data : Array UInt8) : Array Entry := collect #[] data.toList

/-- The role of an entry. A reserved note number is never a note, whatever the tuning. -/
def role (e : Entry) (tuning : Tuning) : Role :=
  if e.note = endMark then .endMark
  else if e.note = emptyMark then .empty
  else if tuning.has e.note then .note e.note
  else .rest

end Entry

end Chiptune
