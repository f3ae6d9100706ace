import Chiptune.Part
import Chiptune.Text.Numeral
/-!
# Listings

A listing shows a part entry by entry: position, the three bytes in hexadecimal, the role under a
tuning, and how long the entry lasts. An end mark restarts the track and shows no length.

    0000  0C 08 00  note  12   130 Hz  wait 8
    0001  FF 04 00  empty  wait 4
    0002  FE 00 00  end -> 0000
-/
namespace Chiptune

/-- One entry of a listing. -/
structure ListingRow where
  index : Nat
  entry : Entry
  role : Role
  /-- The frequency of a note. -/
  frequency : Option UInt16
deriving DecidableEq

namespace ListingRow

open Text

/-- The row of an entry under a tuning. -/
def ofEntry (tuning : Tuning) (index : Nat) (entry : Entry) : ListingRow where
  index := index
  entry := entry
  role := entry.role tuning
  frequency := match entry.role tuning with
    | .note number => tuning.get? number.toNat
    | .rest | .endMark | .empty => none

def byteText (b : UInt8) : List Char := hexZeros 2 b.toNat

/-- Position and bytes. -/
def headText (r : ListingRow) : List Char :=
  decimalZeros 4 r.index ++ "  ".toList ++ byteText r.entry.note ++ " ".toList ++
    byteText r.entry.duration ++ " ".toList ++ byteText r.entry.flags ++ "  ".toList

def waitText (r : ListingRow) : List Char :=
  "  wait ".toList ++ decimal r.entry.duration.toNat

/-- The role, and how long the entry lasts unless it ends the track. -/
def roleText (r : ListingRow) : List Char :=
  match r.role, r.frequency with
  | .note number, some hz =>
    "note ".toList ++ decimalColumn 3 number.toNat ++ " ".toList ++ decimalColumn 5 hz.toNat ++
      " Hz".toList ++ r.waitText
  | .note number, none => "note ".toList ++ decimalColumn 3 number.toNat ++ r.waitText
  | .rest, _ => "rest".toList ++ r.waitText
  | .empty, _ => "empty".toList ++ r.waitText
  | .endMark, _ => "end -> 0000".toList

def text (r : ListingRow) : String := String.ofList (r.headText ++ r.roleText)

end ListingRow

def Part.listing (p : Part) (tuning : Tuning) : List ListingRow :=
  (Entry.all p.data).toList.zipIdx.map fun (entry, index) => .ofEntry tuning index entry

end Chiptune
