import Chiptune.Track
/-!
# Parts

A part is what a track file holds: settings and a whole, non-zero number of entries. A track over it
starts at its first entry and plays all of them.
-/
namespace Chiptune

/-- Why data is no part, or a part cannot be stored. -/
inductive LoadFault where
  /-- The data does not start as a container. -/
  | badMagic
  /-- The container is of another version. -/
  | otherVersion (version : UInt8)
  /-- Header or entries are cut short. -/
  | cutShort
  /-- Bytes are left after the declared entries. -/
  | trailing (bytes : Nat)
  /-- The data ends inside an entry. -/
  | misaligned (bytes : Nat)
  /-- There is no entry. -/
  | empty
  /-- There are more entries than a container can count. -/
  | tooMany (count : Nat)
deriving DecidableEq

def LoadFault.message : LoadFault → String
  | .badMagic => "not a track container (bad magic)"
  | .otherVersion version => s!"unsupported container version {version}"
  | .cutShort => "unexpected end of file"
  | .trailing bytes => s!"{bytes} trailing bytes after the last entry"
  | .misaligned bytes => s!"{bytes} bytes is not a whole number of 3-byte entries"
  | .empty => "track has no entries"
  | .tooMany count => s!"{count} entries exceed the container limit of 65535"

/-- Settings and entries. -/
structure Part where
  settings : Settings
  data : Array UInt8
  nonempty : 0 < data.size
  whole : data.size % Entry.size = 0

namespace Part

/-- The part with these entries; having none is told before a cut entry. -/
def ofData (settings : Settings) (data : Array UInt8) : Except LoadFault Part :=
  if hn : 0 < data.size then
    if hw : data.size % Entry.size = 0 then .ok ⟨settings, data, hn, hw⟩
    else .error (.misaligned data.size)
  else .error .empty

def count (p : Part) : Nat := p.data.size / Entry.size

theorem count_pos (p : Part) : 0 < p.count := by
  have hn := p.nonempty
  have hw := p.whole
  simp only [count, Entry.size] at *
  omega

theorem count_mul_size (p : Part) : p.count * Entry.size = p.data.size := by
  have hw := p.whole
  simp only [count, Entry.size] at *
  omega

/-- The track over all entries, at its start. -/
def track (p : Part) : Track where
  data := p.data
  count := p.count
  settings := p.settings
  next := 0
  wait := 0
  fits := Nat.le_of_eq p.count_mul_size
  next_lt := p.count_pos

end Part

end Chiptune
