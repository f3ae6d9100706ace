import Chiptune.Host
/-!
# Sequencers

A sequencer steps up to `capacity` tracks together, once per tick and in the order in which they were
added. Tracks do not touch each other: each keeps its own cursor and wait.
-/
namespace Chiptune

/-- Tracks stepped together over one sound bank. -/
structure Sequencer (capacity : Nat) where
  bank : Soundbank
  tracks : List Track := []
  /-- Ticks since the start or the last reset. -/
  ticks : Nat := 0
  fits : tracks.length ≤ capacity := by simp

/-- A tick of a sequencer: the sequencer afterwards, the tones with the tracks that requested them,
and the log. -/
structure Tick (capacity : Nat) where
  sequencer : Sequencer capacity
  tones : List (Nat × Tone)
  log : List LogRecord

namespace Sequencer

variable {capacity : Nat}

def new (bank : Soundbank) : Sequencer capacity := { bank, fits := Nat.zero_le _ }

/-- The sequencer with one more track, or nothing if it is full. -/
def add? (s : Sequencer capacity) (t : Track) : Option (Sequencer capacity) :=
  if h : s.tracks.length < capacity then
    some { s with tracks := s.tracks ++ [t], fits := by rw [List.length_append]; exact h }
  else none

/-- Adds a track and tells its index; a full sequencer hands the track back. -/
def add (s : Sequencer capacity) (t : Track) : Except Track Nat × Sequencer capacity :=
  match s.add? t with
  | some s => (.ok (s.tracks.length - 1), s)
  | none => (.error t, s)

/-- The sequencer with the track at `index` changed; an index that no track has changes nothing. -/
def modify (s : Sequencer capacity) (index : Nat) (f : Track → Track) : Sequencer capacity :=
  { s with tracks := s.tracks.modify index f, fits := by simpa using s.fits }

/-- A tick of every track, in order. -/
def steps (s : Sequencer capacity) : List Step := s.tracks.map (·.tick s.bank)

/-- The tones of the steps of tracks `index`, `index + 1`, … -/
def tonesFrom (index : Nat) : List Step → List (Nat × Tone)
  | [] => []
  | s :: rest =>
    match s.outcome.tone? with
    | some tone => (index, tone) :: tonesFrom (index + 1) rest
    | none => tonesFrom (index + 1) rest

def tick (s : Sequencer capacity) : Tick capacity where
  sequencer := { s with
    tracks := s.steps.map (·.track)
    ticks := s.ticks + 1
    fits := by simpa [steps] using s.fits }
  tones := tonesFrom 0 s.steps
  log := s.steps.flatMap (·.log)

/-- One tick, its tones requested from a host in order. -/
def play {σ : Type} [Host σ] (s : Sequencer capacity) (host : σ) : Tick capacity × σ :=
  let t := s.tick
  (t, t.tones.foldl (fun host tone => tone.2.request host) host)

/-- Every track and the tick count back at the start. -/
def reset (s : Sequencer capacity) : Sequencer capacity :=
  { s with tracks := s.tracks.map (·.reset), ticks := 0, fits := by simpa using s.fits }

end Sequencer

end Chiptune
