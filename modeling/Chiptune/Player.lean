import Chiptune.Part.Container
import Chiptune.Config.Text
import Chiptune.Listing
import Chiptune.Playback
/-!
# Players

A player holds a configuration with its sound bank and up to four parts, one for each host channel,
and plays them together from the start: offline for a trace, or live at the tick rate by a clock.
-/
namespace Chiptune

/-- Parts played together. -/
def maxParts : Nat := 4

/-- Why a player cannot be made or a part not be added. -/
inductive PlayerFault where
  | config (cause : ConfigFault)
  | load (path : String) (cause : LoadFault)
  | read (path : String) (cause : ReadFault)
  | tooMany (count : Nat)
deriving DecidableEq

def PlayerFault.message : PlayerFault → String
  | .config cause => cause.message
  | .load path cause => s!"{path}: {cause.message}"
  | .read path cause => s!"failed to read {path}: {cause.message}"
  | .tooMany count => s!"too many tracks ({count}), at most 4 play together"

/-- A configuration with its sound bank, and parts in the order in which they were added. -/
structure Player where
  config : Config
  bank : Soundbank
  parts : List Part := []
  /-- The sound bank is the one that the configuration describes. -/
  accepted : config.soundbank = .ok bank
  fits : parts.length ≤ maxParts := by decide

/-- The result of a live run: the ticks played, the calls made and the pause after each tick. -/
structure LiveRun where
  played : Nat
  events : List Trace.Event
  pauses : List Pause

namespace Player

def new (config : Config) : Except PlayerFault Player :=
  match h : config.soundbank with
  | .ok bank => .ok { config, bank, accepted := h }
  | .error e => .error (.config e)

def add (p : Player) (part : Part) : Except PlayerFault Player :=
  if h : p.parts.length < maxParts then
    .ok { p with parts := p.parts ++ [part], fits := by rw [List.length_append]; exact h }
  else .error (.tooMany (p.parts.length + 1))

/-- The player with the part of a file; the settings are for bare entries. A file that cannot be read
or loaded is told before a full player. -/
def addFile (p : Player) (folder : Folder) (path : String) (settings : Settings) :
    Logged (Except PlayerFault Player) :=
  match folder.read path with
  | .error e => ⟨.error (.read path e), []⟩
  | .ok data =>
    let loaded := Part.load settings data
    match loaded.value with
    | .error e => ⟨.error (.load path e), loaded.log⟩
    | .ok part => ⟨p.add part, loaded.log ++ [.fileLoaded path part.count]⟩

/-- The player with the parts of files, one after the other. -/
def addFiles (p : Player) (folder : Folder) (settings : Settings) : List String → Logged (Except PlayerFault Player)
  | [] => ⟨.ok p, []⟩
  | path :: rest => (p.addFile folder path settings).andThen fun p => p.addFiles folder settings rest

/-- What an attempt to add a part answers, and the player afterwards: the index of the part, or a fault and
the player as it was. -/
def answer (p : Player) : Except PlayerFault Player → Except PlayerFault Nat × Player
  | .ok q => (.ok (q.parts.length - 1), q)
  | .error e => (.error e, p)

/-- All parts at their start, in order. -/
def sequencer (p : Player) : Sequencer maxParts where
  bank := p.bank
  tracks := p.parts.map (·.track)
  fits := by simpa using p.fits

def trace (p : Player) (ticks : Nat) : Logged (List Trace.Event) :=
  let run := Playback.run ticks { sequencer := p.sequencer }
  ⟨run.events.toList, run.log.toList⟩

/-- Live playback on a stage, to a limit or until it is stopped there. Without a limit it goes on as long as
ticks can be counted. Gives the ticks played. -/
@[specialize]
def playLive {m : Type → Type} [Monad m] (p : Player) (stage : Stage m) (limit : Option Nat) : m Nat := do
  let pace := Pace.ofRate p.config.tickRate (← stage.now)
  stage.record (.playing p.parts.length p.config.tickRate)
  Live.run stage limit word64Limit pace p.sequencer

/-- What happens in live playback. -/
def live (p : Player) (limit : Option Nat) (stop : Nat → Array Trace.Event → Bool)
    (clock : Nat → Nat := fun _ => 0) : Logged LiveRun :=
  let (played, take) := (p.playLive (Take.stage stop clock) limit).run {}
  ⟨⟨played, take.events.toList, take.pauses.toList⟩, take.log.toList⟩

end Player

end Chiptune
