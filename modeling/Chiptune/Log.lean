import Chiptune.Instrument
import Chiptune.Text.Numeral
/-!
# The log

What loading, playback and commands report beside their result. A record is kept as what happened; its
level and text are functions of that.
-/
namespace Chiptune

/-- How much detail a record is. -/
inductive LogLevel where
  | trace
  | debug
  | info
  | warn
deriving DecidableEq

def LogLevel.name : LogLevel → String
  | trace => "TRACE"
  | debug => "DEBUG"
  | info => "INFO"
  | warn => "WARN"

/-- Something worth reporting. -/
inductive LogRecord where
  /-- The entry at `index` sounded. -/
  | played (index : Nat) (note : UInt8) (hz : UInt16) (instrument : Instrument)
  /-- An end mark sent the track back to its start. -/
  | restarted
  /-- A container was read. -/
  | containerLoaded (entries : Nat) (ticks instrument volume : UInt8)
  /-- Bare entries were read. -/
  | bareLoaded (entries : Nat)
  /-- A file was read as a track. -/
  | fileLoaded (path : String) (entries : Nat)
  /-- Live playback starts. -/
  | playing (tracks tickRate : Nat)
  /-- Live playback was too late, by so many nanoseconds, and counts on from the present. -/
  | fellBehind (behind : Nat)
  /-- A configuration was read. -/
  | configLoaded (path : String)
  /-- A trace was made. -/
  | traced (calls ticks : Nat)
  /-- A trace was stored in a file. -/
  | wrote (path : String)
  /-- Live playback has ended. -/
  | finished (ticks : Nat)
deriving DecidableEq

namespace LogRecord

def level : LogRecord → LogLevel
  | played .. => .trace
  | restarted | containerLoaded .. | bareLoaded _ | configLoaded _ => .debug
  | fileLoaded .. | playing .. | traced .. | wrote _ | finished _ => .info
  | fellBehind _ => .warn

def text : LogRecord → String
  | played index note hz instrument => s!"entry {index}: note {note} -> {hz} Hz on {instrument.label}"
  | restarted => "end marker, restarting track"
  | containerLoaded entries ticks instrument volume =>
    s!"loaded track: {entries} entries, ticks {ticks}, instrument {instrument}, volume {volume}"
  | bareLoaded entries => s!"loaded raw track: {entries} entries"
  | fileLoaded path entries => s!"{path}: {entries} entries"
  | playing tracks tickRate => s!"playing {tracks} tracks at {tickRate} Hz"
  | fellBehind behind => s!"driver fell behind by {String.ofList (Text.duration behind)}, resyncing"
  | configLoaded path => s!"loaded config from {path}"
  | traced calls ticks => s!"{calls} tone calls in {ticks} ticks"
  | wrote path => s!"wrote {path}"
  | finished ticks => s!"played {ticks} ticks"

end LogRecord

/-- A result and the records made on the way to it, oldest first. -/
structure Logged (α : Type) where
  value : α
  log : List LogRecord

/-- What comes after a result, unless that is a fault; the records of both. -/
def Logged.andThen {ε α β : Type} (r : Logged (Except ε α)) (next : α → Logged (Except ε β)) :
    Logged (Except ε β) :=
  match r.value with
  | .error e => ⟨.error e, r.log⟩
  | .ok a => ⟨(next a).value, r.log ++ (next a).log⟩

end Chiptune
