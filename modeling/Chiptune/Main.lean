import Chiptune.Command
/-!
# The program

Carries a command out in the shell of the system: it prints to the terminal, stores in files, and shows its
records beside. Live playback goes by the clock of the system and sleeps between its ticks.
-/
namespace Chiptune.Program

def usage : String :=
  "Usage:\n" ++
  "  dump FILE [OPTIONS]                           print a part's settings and entries\n" ++
  "  trace FILE... [--ticks N] [-o OUT] [OPTIONS]  step parts together and write every call\n" ++
  "  play FILE... [--ticks N] [OPTIONS]            step parts live and print every call\n" ++
  "Options:\n" ++
  "  --config FILE        configuration\n" ++
  "  --ticks-per-unit N   release ticks per duration unit, for bare entries\n" ++
  "  --instrument N       instrument number, for bare entries\n" ++
  "  --volume N           volume, for bare entries\n"

/-- A command of the program; what goes wrong with the terminal ends it. -/
abbrev Action := ExceptT CommandFault IO

/-- What is shown of the log: a record of these levels. -/
def shows : LogLevel → Bool
  | .trace | .debug => false
  | .info | .warn => true

/-- The files of these names, those of them that can be read. -/
def readFolder (names : List String) : IO Folder :=
  names.foldlM (fun (folder : Folder) (name : String) => do
    match ← (IO.FS.readBinFile name).toBaseIO with
    | .ok content => return folder.write name content.data
    | .error _ => return folder) {}

instance : Shell Action where
  folder names := readFolder names
  print text := do (← IO.getStdout).putStr text
  create path := do
    match ← (IO.FS.writeFile path "").toBaseIO with
    | .ok () => return
    | .error _ => throw (.create path)
  append path text := (IO.FS.withFile path .append (·.putStr text) : IO Unit)
  record r := do if shows r.level then IO.eprintln s!"{r.level.name} {r.text}"
  now := IO.monoNanosNow
  pause p := do
    (← IO.getStdout).flush
    match p with
    | .sleep duration => IO.sleep (.ofNat (duration / 1000000))
    | .none | .resync _ => return

end Chiptune.Program

open Chiptune Chiptune.Program in
def main (args : List String) : IO UInt32 := do
  match Arguments.parse args with
  | .error .help =>
    IO.print usage
    return 0
  | .error .usage =>
    IO.eprint usage
    return 2
  | .ok c =>
    match ← (c.perform : Action Unit).run with
    | .ok () => return 0
    | .error e =>
      IO.eprintln s!"Error: {e.message}"
      return 1
