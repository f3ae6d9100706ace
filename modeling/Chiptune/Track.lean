import Chiptune.Tone
import Chiptune.Soundbank
import Chiptune.Entry
import Chiptune.Log
/-!
# Tracks

A track plays the first `count` entries of its data. On each tick it either counts down its wait or,
when none is left, decodes the entry at its cursor: at most one tone is requested, the entry's
duration becomes the new wait, and the cursor moves on. The cursor goes back to the first entry after
the last one and after an end mark.

A note is looked up before the end mark is, so a tuning of more than 254 notes makes the end mark
sound as well; it still restarts the track.

`Track.new` is the one way in. What it checks stays with the track, so that a tick always finds its
entry.
-/
namespace Chiptune

/-- How the tones of a track are made. -/
structure Settings where
  /-- Release ticks for each tick of duration. -/
  ticks : UInt8 := 1
  /-- The number of the instrument in the bank. -/
  instrument : UInt8 := 0
  volume : UInt8 := 100
deriving DecidableEq

/-- Why data cannot be played. -/
inductive TrackFault where
  /-- No entry is to be played. -/
  | empty
  /-- The entries to be played reach past every address. -/
  | unaddressable
  /-- The data is shorter than the entries to be played. -/
  | short (count bytes : Nat)
deriving DecidableEq

def TrackFault.message : TrackFault → String
  | .empty => "track must have at least one entry"
  | .unaddressable => "entries past the last address"
  | .short count bytes => s!"{count} entries do not fit in {bytes} bytes"

/-- A cursor over a run of entries. -/
structure Track where
  data : Array UInt8
  /-- The number of entries to be played. -/
  count : Nat
  settings : Settings
  /-- The position of the entry to be decoded next. -/
  next : Nat
  /-- Ticks to be waited before that. -/
  wait : Nat
  /-- Every entry to be played is in the data. -/
  fits : count * Entry.size ≤ data.size
  /-- The cursor is on one of them. -/
  next_lt : next < count

/-- What a tick of a track did. -/
inductive Outcome where
  /-- It waited; `remaining` ticks of the wait are left. -/
  | waited (remaining : Nat)
  /-- It requested a tone. -/
  | played (tone : Tone)
  /-- It decoded an entry without a sound. -/
  | rest
  /-- It decoded a silent end mark. -/
  | looped
deriving DecidableEq

def Outcome.tone? : Outcome → Option Tone
  | .played tone => some tone
  | .waited _ | .rest | .looped => none

/-- A tick of a track: what it did, the track afterwards and the log. -/
structure Step where
  outcome : Outcome
  track : Track
  log : List LogRecord

namespace Track

/-- A track at the start of the first `count` entries of `data`. -/
def new (data : Array UInt8) (count : Nat) : Except TrackFault Track :=
  if hc : 0 < count then
    match word64? (count * Entry.size) with
    | none => .error .unaddressable
    | some _ =>
      if h : count * Entry.size ≤ data.size then .ok ⟨data, count, {}, 0, 0, h, hc⟩
      else .error (.short count data.size)
  else .error .empty

/-- A track over all whole entries of `data`. -/
def ofData (data : Array UInt8) : Except TrackFault Track := new data (data.size / Entry.size)

def withSettings (t : Track) (settings : Settings) : Track := { t with settings }

def setInstrument (t : Track) (instrument : UInt8) : Track :=
  { t with settings := { t.settings with instrument } }

def setVolume (t : Track) (volume : UInt8) : Track :=
  { t with settings := { t.settings with volume } }

def reset (t : Track) : Track :=
  { t with next := 0, wait := 0, next_lt := Nat.zero_lt_of_lt t.next_lt }

/-! ## Decoding an entry -/

theorem start_le (t : Track) : t.next * Entry.size + Entry.size ≤ t.data.size := by
  have := t.fits
  have := t.next_lt
  simp only [Entry.size] at *
  omega

def entry (t : Track) : Entry := Entry.ofBytes t.data (t.next * Entry.size) t.start_le

/-- The tone of an entry that sounds at `hz`. -/
def tone (t : Track) (bank : Soundbank) (e : Entry) (hz : UInt16) : Tone :=
  let instrument := bank.instruments.resolve t.settings.instrument
  { frequency := hz.toUInt32
    sustain := 0
    release := e.duration.toUInt32 * t.settings.ticks.toUInt32
    volume := t.settings.volume.toUInt32
    channel := instrument.channel.code.toUInt32
    mode := instrument.duty.code.toUInt32 }

/-- What decoding an entry does. -/
def decode (t : Track) (bank : Soundbank) (e : Entry) : Outcome :=
  match bank.tuning.get? e.note.toNat with
  | some hz => .played (t.tone bank e hz)
  | none => if e.note = Entry.endMark then .looped else .rest

def records (t : Track) (bank : Soundbank) (e : Entry) : List LogRecord :=
  (match bank.tuning.get? e.note.toNat with
    | some hz => [.played t.next e.note hz (bank.instruments.resolve t.settings.instrument)]
    | none => []) ++
  if e.note = Entry.endMark then [.restarted] else []

/-- The cursor after an entry. -/
def following (t : Track) (e : Entry) : Nat :=
  if e.note = Entry.endMark then 0 else (t.next + 1) % t.count

theorem following_lt (t : Track) (e : Entry) : t.following e < t.count := by
  have h : 0 < t.count := Nat.zero_lt_of_lt t.next_lt
  unfold following
  split
  · exact h
  · exact Nat.mod_lt _ h

/-- The track past an entry. -/
def pass (t : Track) (e : Entry) : Track :=
  { t with next := t.following e, wait := e.duration.toNat, next_lt := t.following_lt e }

/-! ## Ticks -/

def tick (t : Track) (bank : Soundbank) : Step :=
  if 0 < t.wait then ⟨.waited (t.wait - 1), { t with wait := t.wait - 1 }, []⟩
  else ⟨t.decode bank t.entry, t.pass t.entry, t.records bank t.entry⟩

end Track

end Chiptune
