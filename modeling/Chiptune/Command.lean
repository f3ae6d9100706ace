import Chiptune.Player
import Chiptune.Command.Arguments
/-!
# Commands

A command loads its configuration, builds the sound bank and loads its files, in that order and one file after
the other. Only then does it print or store anything; a listing and live calls are printed line by line, a trace
in the pieces of its text. A fault ends a command where it comes up, and what has been done by then stays done.

Commands are written once, over the shell that they are run in (`Shell`). The shell of the program prints to
the terminal and stores in files. That of a `Workplace` has a folder and keeps all that is printed and recorded.
-/
namespace Chiptune

inductive CommandFault where
  | player (cause : PlayerFault)
  /-- The file to be written cannot be created. -/
  | create (path : String)
deriving DecidableEq

def CommandFault.message : CommandFault → String
  | .player cause => cause.message
  | .create path => s!"failed to create {path}"

/-- What a command asks of its surroundings. -/
class Shell (m : Type → Type) where
  /-- A folder with the files of these names, those of them that are there. -/
  folder : List String → m Folder
  print : String → m Unit
  /-- Creates an empty file, or empties the one that is there. -/
  create : String → m Unit
  /-- Adds a text to a file. -/
  append : String → String → m Unit
  record : LogRecord → m Unit
  /-- The time. -/
  now : m Nat
  /-- Waits between two ticks of live playback. -/
  pause : Pause → m Unit

/-! ## Workplaces -/

/-- A folder, and what has been printed. -/
structure Session where
  folder : Folder
  output : String := ""

/-- A session with its records, and a clock. -/
structure Workplace extends Session where
  log : Array LogRecord := #[]
  /-- What the clock shows when it is read for the first time, the second time, … -/
  clock : Nat → Nat
  /-- How often the clock has been read. -/
  readings : Nat := 0

/-- Work at a workplace. After a fault the workplace is as the work has left it. -/
abbrev Work := EStateM CommandFault Workplace

instance : Shell Work where
  folder _ := return (← get).folder
  print text := modify fun w => { w with output := w.output ++ text }
  create path := do
    let w ← get
    if w.folder.canCreate path then set { w with folder := w.folder.write path #[] }
    else throw (.create path)
  append path text := modify fun w => { w with folder := w.folder.append path text.toUTF8.data }
  record r := modify fun w => { w with log := w.log.push r }
  now := modifyGet fun w => (w.clock w.readings, { w with readings := w.readings + 1 })
  pause _ := return

namespace Command

/-! ## Loading -/

/-- The files to be loaded. -/
def files : Command → List String
  | dump file _ => [file]
  | trace files _ _ _ => files
  | play files _ _ => files

def options : Command → Options
  | dump _ options => options
  | trace _ _ _ options => options
  | play _ _ options => options

/-- The file to be written. -/
def out? : Command → Option String
  | trace _ _ out _ => out
  | dump _ _ => none
  | play _ _ _ => none

/-- The configuration named, or that of the reference. -/
def loadConfig (folder : Folder) (options : Options) : Logged (Except PlayerFault Config) :=
  match options.config with
  | none => ⟨.ok {}, []⟩
  | some path =>
    let loaded := Config.load folder path
    match loaded.value with
    | .ok config => ⟨.ok config, loaded.log⟩
    | .error e => ⟨.error (.config e), loaded.log⟩

/-- A player with the parts of these files. -/
def loadPlayer (folder : Folder) (options : Options) (files : List String) :
    Logged (Except PlayerFault Player) :=
  (loadConfig folder options).andThen fun config =>
    Logged.andThen ⟨Player.new config, []⟩ fun player => player.addFiles folder options.settings files

def config (folder : Folder) (options : Options) : Except PlayerFault Config :=
  (loadConfig folder options).value

def player (folder : Folder) (options : Options) (files : List String) : Except PlayerFault Player :=
  (loadPlayer folder options files).value

/-! ## Carrying out -/

/-- The settings of a part, a blank line and its listing. -/
def dumpLines (file : String) (part : Part) (tuning : Tuning) : List String :=
  let s := part.settings
  let head := [s!"File:       {file}", s!"Entries:    {part.count}", s!"Ticks/unit: {s.ticks}",
    s!"Instrument: {s.instrument}", s!"Volume:     {s.volume}", ""]
  head ++ (part.listing tuning).map (·.text)

section
variable {m : Type → Type} [Monad m] [MonadExceptOf CommandFault m] [Shell m]

@[specialize]
def printLine (line : String) : m Unit := Shell.print (line ++ "\n")

@[specialize]
def recordAll (log : List LogRecord) : m Unit := log.forM Shell.record

/-- Loads a player, the configuration first. -/
@[specialize]
def load (options : Options) (files : List String) : m Player := do
  let folder ← Shell.folder (options.config.toList ++ files)
  let loaded := loadPlayer folder options files
  recordAll loaded.log
  match loaded.value with
  | .ok p => return p
  | .error e => throw (.player e)

/-- Prints the head and the listing of a file. -/
@[specialize]
def performDump (file : String) (options : Options) : m Unit := do
  let p ← load options [file]
  match p.parts with
  | part :: _ => (dumpLines file part p.bank.tuning).forM printLine
  | [] => return

/-- Prints the text of a trace, or stores it in a file that is created for it. -/
@[specialize]
def performTrace (files : List String) (ticks : Nat) (out : Option String) (options : Options) : m Unit := do
  let p ← load options files
  let trace := p.trace ticks
  recordAll trace.log
  Shell.record (.traced trace.value.length ticks)
  match out with
  | none => (Trace.pieces trace.value).forM fun piece => Shell.print (.ofList piece)
  | some path =>
    Shell.create path
    Shell.append path (Trace.text trace.value)
    Shell.record (.wrote path)

/-- Live playback in a shell, where each call is printed and nothing stops it. -/
@[specialize]
def stage : Stage m where
  stopped _ := return false
  report e := printLine e.line
  record := Shell.record
  now := Shell.now
  pause := Shell.pause

/-- Prints the column heads, and then each call of live playback as it is made. -/
@[specialize]
def performPlay (files : List String) (ticks : Option Nat) (options : Options) : m Unit := do
  let p ← load options files
  printLine Trace.header
  let played ← p.playLive stage ticks
  Shell.record (.finished played)

@[specialize]
def perform : Command → m Unit
  | dump file options => performDump file options
  | trace files ticks out options => performTrace files ticks out options
  | play files ticks options => performPlay files ticks options

end

/-- A command at a new workplace. -/
def work (folder : Folder) (c : Command) (clock : Nat → Nat := fun _ => 0) :
    EStateM.Result CommandFault Workplace Unit :=
  (c.perform : Work Unit).run { folder, clock }

/-- A command in a new session; its records are left aside. -/
def run (folder : Folder) (c : Command) (clock : Nat → Nat := fun _ => 0) :
    EStateM.Result CommandFault Session Unit :=
  match c.work folder clock with
  | .ok () w => .ok () w.toSession
  | .error e w => .error e w.toSession

end Command

end Chiptune
