import Chiptune.Sequencer
import Chiptune.Trace
import Chiptune.Pace
/-!
# Playback

A sequencer that is played gives a trace, tick by tick. Offline it is played a number of ticks, and the
ticks are counted by the player. Live it is played at a pace, to a limit or until it is stopped; then the
ticks are counted by the sequencer itself. A stop is looked for before each tick, so a tick that has
started is always played to its end.

Live playback is written once, over the stage that it takes place on (`Stage`): the program plays on one with a
real clock, and a `Take` is recorded on one where all that happens is written down.
-/
namespace Chiptune

def Tick.events {capacity : Nat} (number : Nat) (t : Tick capacity) : List Trace.Event :=
  t.tones.map fun (track, tone) => ⟨number, track, tone.pack⟩

/-- A sequencer with the trace and the log of the ticks it has been played. -/
structure Playback (capacity : Nat) where
  sequencer : Sequencer capacity
  events : Array Trace.Event := #[]
  log : Array LogRecord := #[]

namespace Playback

variable {capacity : Nat}

/-- One more tick, known by this number. -/
def tick (number : Nat) (p : Playback capacity) : Playback capacity :=
  let t := p.sequencer.tick
  ⟨t.sequencer, p.events ++ t.events number, p.log ++ t.log⟩

/-- Ticks `first`, `first + 1`, …, as many as said. -/
def runFrom (first : Nat) : Nat → Playback capacity → Playback capacity
  | 0, p => p
  | n + 1, p => runFrom (first + 1) n (p.tick first)

/-- A number of ticks, the first of them tick 0. -/
def run (n : Nat) (p : Playback capacity) : Playback capacity := runFrom 0 n p

end Playback

/-! ## Live -/

/-- The record of a pause: there is one where ticks are given up. -/
def Pause.record? : Pause → Option LogRecord
  | sleep _ | none => Option.none
  | resync behind => some (.fellBehind behind)

/-- Where live playback takes place: what it asks of its surroundings, and what it gives to them. -/
structure Stage (m : Type → Type) where
  /-- Whether playback has been stopped; so many ticks have been played. -/
  stopped : Nat → m Bool
  /-- Takes a call as it is made. -/
  report : Trace.Event → m Unit
  /-- Takes a record as it is made. -/
  record : LogRecord → m Unit
  /-- The time. -/
  now : m Nat
  /-- Waits between two ticks. -/
  pause : Pause → m Unit

namespace Live

variable {m : Type → Type} [Monad m] {capacity : Nat}

/-- The steps of tracks `index`, `index + 1`, … in a tick known by its number: of each its records and then its
call. -/
@[specialize]
def steps (stage : Stage m) (number : Nat) : Nat → List Step → m Unit
  | _, [] => return
  | index, s :: rest => do
    s.log.forM stage.record
    s.outcome.tone?.forM fun tone => stage.report ⟨number, index, tone.pack⟩
    steps stage number (index + 1) rest

/-- One more tick and the pause after it. -/
@[specialize]
def tick (stage : Stage m) (pace : Pace) (s : Sequencer capacity) : m Pace := do
  steps stage s.ticks 0 s.steps
  let (pace, pause) := pace.next (← stage.now)
  pause.record?.forM stage.record
  stage.pause pause
  return pace

/-- Ticks until playback is stopped or at its limit, at most `bound` of them. Gives the ticks played. -/
@[specialize]
def run (stage : Stage m) (limit : Option Nat) : Nat → Pace → Sequencer capacity → m Nat
  | 0, _, s => return s.ticks
  | bound + 1, pace, s => do
    if ← stage.stopped s.ticks then return s.ticks
    else if limit.any (· ≤ s.ticks) then return s.ticks
    else run stage limit bound (← tick stage pace s) s.tick.sequencer

end Live

/-- What has happened on a stage. -/
structure Take where
  events : Array Trace.Event := #[]
  pauses : Array Pause := #[]
  log : Array LogRecord := #[]
  /-- How often the clock has been read. -/
  readings : Nat := 0

/-- The stage where all that happens is written down. `stop` is asked with the ticks played and the calls made so
far, and `clock` says what the clock shows when it is read for the first time, the second time, … -/
def Take.stage (stop : Nat → Array Trace.Event → Bool) (clock : Nat → Nat) : Stage (StateM Take) where
  stopped ticks := return stop ticks (← get).events
  report e := modify fun t => { t with events := t.events.push e }
  record r := modify fun t => { t with log := t.log.push r }
  now := modifyGet fun t => (clock t.readings, { t with readings := t.readings + 1 })
  pause p := modify fun t => { t with pauses := t.pauses.push p }

end Chiptune
