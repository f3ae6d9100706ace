import Chiptune.Track
import Chiptune.Text.Numeral
/-!
# Arguments

The command line is a verb, then files and options in any order:

    dump FILE [OPTIONS]
    trace FILE... [--ticks N] [-o OUT | --out OUT] [OPTIONS]
    play FILE... [--ticks N] [OPTIONS]

    --config FILE   --ticks-per-unit N   --instrument N   --volume N

A value follows its option or is joined to it by `=` (to the letter `o` also directly). A value that
follows does not look like an option. No option is given twice, none is abbreviated, and behind `--`
all arguments are files. Names of files are not empty.
-/
namespace Chiptune

/-- What every verb takes beside files: a configuration, and settings for bare entries. -/
structure Options where
  config : Option String := none
  settings : Settings := {}
deriving DecidableEq

/-- What is to be done. -/
inductive Command where
  /-- Print the settings and the listing of a file. -/
  | dump (file : String) (options : Options)
  /-- Print or store the trace of the first ticks. -/
  | trace (files : List String) (ticks : Nat) (out : Option String) (options : Options)
  /-- Print host calls as they are made, to a limit or for ever. -/
  | play (files : List String) (ticks : Option Nat) (options : Options)
deriving DecidableEq

/-- Why there is nothing to be done. -/
inductive Refusal where
  /-- Help was asked for. -/
  | help
  /-- The arguments do not fit. -/
  | usage
deriving DecidableEq

namespace Arguments

inductive Verb where
  | dump
  | trace
  | play
deriving DecidableEq

/-- The options that take a value. -/
inductive Name where
  | config
  | ticksPerUnit
  | instrument
  | volume
  | ticks
  | out
deriving DecidableEq

def verb? (word : String) : Option Verb :=
  match word with
  | "dump" => some .dump
  | "trace" => some .trace
  | "play" => some .play
  | _ => none

/-- The option of a long name, for a verb that has it. -/
def long? (verb : Verb) (name : String) : Option Name :=
  match name with
  | "config" => some .config
  | "ticks-per-unit" => some .ticksPerUnit
  | "instrument" => some .instrument
  | "volume" => some .volume
  | "ticks" => if verb = .dump then none else some .ticks
  | "out" => if verb = .trace then some .out else none
  | _ => none

structure Draft where
  /-- Files, latest first. -/
  files : List String := []
  config : Option String := none
  ticksPerUnit : Option UInt8 := none
  instrument : Option UInt8 := none
  volume : Option UInt8 := none
  ticks : Option Nat := none
  out : Option String := none

/-! ## Values -/

def path? (value : String) : Option String := if value = "" then none else some value

/-- A byte, with an optional sign; a negative zero is a zero. -/
def byte? (value : String) : Option UInt8 := do
  let n ← match value.toList with
    | '+' :: rest => Text.natural? rest
    | '-' :: rest => (fun n => if n = 0 then 0 else 256) <$> Text.natural? rest
    | rest => Text.natural? rest
  if n < 256 then some (UInt8.ofNat n) else none

/-- A number of 64 bits, with an optional plus sign. -/
def count? (value : String) : Option Nat := do
  match value.toList with
  | '+' :: rest => word64? (← Text.natural? rest)
  | rest => word64? (← Text.natural? rest)

/-- A value for an option that has none so far. -/
def once {α : Type} (old new : Option α) : Except Refusal (Option α) :=
  match old, new with
  | none, some value => .ok (some value)
  | _, _ => .error .usage

/-- The draft with an option set. -/
def Draft.set (d : Draft) (name : Name) (value : String) : Except Refusal Draft :=
  match name with
  | .config => do return { d with config := ← once d.config (path? value) }
  | .ticksPerUnit => do return { d with ticksPerUnit := ← once d.ticksPerUnit (byte? value) }
  | .instrument => do return { d with instrument := ← once d.instrument (byte? value) }
  | .volume => do return { d with volume := ← once d.volume (byte? value) }
  | .ticks => do return { d with ticks := ← once d.ticks (count? value) }
  | .out => do return { d with out := ← once d.out (path? value) }

/-- The draft with one more file; a dump takes no second one. -/
def Draft.addFile (verb : Verb) (d : Draft) (value : String) : Except Refusal Draft :=
  if value = "" ∨ (verb = .dump ∧ d.files ≠ []) then .error .usage
  else .ok { d with files := value :: d.files }

/-! ## Words -/

/-- What a word is. -/
inductive Word where
  | file (name : String)
  /-- All that follows are files. -/
  | rest
  /-- An option whose value follows. -/
  | awaiting (name : Name)
  | setting (name : Name) (value : String)
  | help
  | unknown

/-- A long option behind its dashes. -/
def longWord (verb : Verb) (cs : List Char) : Word :=
  let name := String.ofList (cs.takeWhile (· ≠ '='))
  match long? verb name, cs.dropWhile (· ≠ '=') with
  | some name, [] => .awaiting name
  | some name, _ :: value => .setting name (.ofList value)
  | none, [] => if name = "help" then .help else .unknown
  | none, _ :: _ => .unknown

/-- Short options behind their dash. -/
def shortWord (verb : Verb) (letter : Char) (cs : List Char) : Word :=
  if letter = 'h' then .help
  else if letter = 'o' ∧ verb = .trace then
    match cs with
    | [] => .awaiting .out
    | '=' :: value => .setting .out (.ofList value)
    | value => .setting .out (.ofList value)
  else .unknown

/-- The kind of a word. A single dash is a file name. -/
def Word.of (verb : Verb) (word : String) : Word :=
  match word.toList with
  | ['-', '-'] => .rest
  | '-' :: '-' :: cs => longWord verb cs
  | '-' :: letter :: cs => shortWord verb letter cs
  | _ => .file word

/-- A word that cannot be the value of the option before it. -/
def looksLikeOption (word : String) : Bool :=
  match word.toList with
  | '-' :: _ :: _ => true
  | _ => false

/-- Reads the words behind the verb. -/
def collect (verb : Verb) (d : Draft) : List String → Except Refusal Draft
  | [] => .ok d
  | word :: words =>
    match Word.of verb word with
    | .help => .error .help
    | .unknown => .error .usage
    | .rest => words.foldlM (Draft.addFile verb) d
    | .file name =>
      match d.addFile verb name with
      | .ok d => collect verb d words
      | .error e => .error e
    | .setting name value =>
      match d.set name value with
      | .ok d => collect verb d words
      | .error e => .error e
    | .awaiting name =>
      match words with
      | [] => .error .usage
      | value :: words =>
        if looksLikeOption value then .error .usage
        else
          match d.set name value with
          | .ok d => collect verb d words
          | .error e => .error e

/-! ## Commands -/

/-- The options common to all verbs. -/
def Draft.options (d : Draft) : Options :=
  let s : Settings := {}
  ⟨d.config, ⟨d.ticksPerUnit.getD s.ticks, d.instrument.getD s.instrument, d.volume.getD s.volume⟩⟩

/-- Ticks of a trace that names no number. -/
def defaultTicks : Nat := 600

/-- The command of a verb; there is at least one file. -/
def Draft.command (verb : Verb) (d : Draft) : Except Refusal Command :=
  match verb, d.files.reverse with
  | _, [] => .error .usage
  | .dump, file :: _ => .ok (.dump file d.options)
  | .trace, files => .ok (.trace files (d.ticks.getD defaultTicks) d.out d.options)
  | .play, files => .ok (.play files d.ticks d.options)

/-- Help on the program or on one verb; `help` itself counts as a verb. -/
def help : List String → Refusal
  | [] => .help
  | [word] => if word = "help" ∨ (verb? word).isSome then .help else .usage
  | _ :: _ :: _ => .usage

/-- A word in front of which no verb stands asks for help. -/
def asksForHelp (word : String) : Bool :=
  word = "--help" || "-h".toList.isPrefixOf word.toList

def parse : List String → Except Refusal Command
  | [] => .error .usage
  | word :: words =>
    match verb? word with
    | some verb => do (← collect verb {} words).command verb
    | none =>
      if word = "help" then .error (help words)
      else .error (if asksForHelp word then .help else .usage)

end Arguments

end Chiptune
