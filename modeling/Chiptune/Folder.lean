/-!
# Folders

Files by their paths. A path is a sequence of steps between slashes: an empty step and `.` stay where
they are, `..` goes up, and any other step is a name. Every place on the way to the last step has to be
a directory.

The folder lies somewhere in a larger tree. A path may lead out of it, upwards or from the root of the
tree; nothing is known there but the directories above.
-/
namespace Chiptune

/-! ## Places -/

/-- Where the names of a place start. -/
inductive Base where
  /-- The root of the tree. -/
  | root
  /-- As many directories above the folder; zero is the folder itself. -/
  | above (levels : Nat)
deriving DecidableEq

/-- A place in the tree. -/
structure Location where
  base : Base
  /-- The names that lead down to it. -/
  names : List String
deriving DecidableEq

namespace Location

/-- The directory around a place; there is none around the root. -/
def parent (l : Location) : Location :=
  match l.names, l.base with
  | [], .root => l
  | [], .above levels => ⟨.above (levels + 1), []⟩
  | _ :: _, base => ⟨base, l.names.dropLast⟩

/-- The place one step on. -/
def step (l : Location) (s : String) : Location :=
  if s = "" ∨ s = "." then l
  else if s = ".." then l.parent
  else ⟨l.base, l.names ++ [s]⟩

def steps (path : String) : List String := path.splitOn "/"

def start (path : String) : Location :=
  if path.toList.head? = some '/' then ⟨.root, []⟩ else ⟨.above 0, []⟩

/-- The place that a path leads to. -/
def ofPath (path : String) : Location := (steps path).foldl step (start path)

/-- The places before each step. -/
def before (l : Location) : List String → List Location
  | [] => []
  | s :: rest => l :: before (l.step s) rest

end Location

/-! ## Folders -/

inductive ReadFault where
  /-- There is no such file. -/
  | notFound
  /-- A file is taken for a directory. -/
  | notDirectory
  /-- The path leads to a directory. -/
  | isDirectory
  /-- A name or the path is too long. -/
  | tooLong
  /-- There is a zero byte in the path. -/
  | zeroByte
  /-- The content is not UTF-8 text. -/
  | notText
deriving DecidableEq

def ReadFault.message : ReadFault → String
  | .notFound => "No such file or directory (os error 2)"
  | .notDirectory => "Not a directory (os error 20)"
  | .isDirectory => "Is a directory (os error 21)"
  | .tooLong => "File name too long (os error 36)"
  | .zeroByte => "file name contained an unexpected NUL byte"
  | .notText => "stream did not contain valid UTF-8"

/-- Files with their contents, and directories. -/
structure Folder where
  files : List (Location × Array UInt8) := []
  directories : List Location := []

namespace Folder

def nameLimit : Nat := 255

def pathLimit : Nat := 4095

/-- The content of the file at a place, if there is one. -/
def file? (f : Folder) (l : Location) : Option (Array UInt8) := f.files.lookup l

/-- There is a directory at a place. -/
def isDirectory (f : Folder) (l : Location) : Bool := l.names.isEmpty || f.directories.contains l

/-- One step on from a place. -/
def enter (f : Folder) (l : Location) (s : String) : Except ReadFault Location :=
  if f.isDirectory l then
    if s.utf8ByteSize ≤ nameLimit then .ok (l.step s) else .error .tooLong
  else if (f.file? l).isSome then .error .notDirectory
  else .error .notFound

/-- The place that a path leads to, if the way is there. -/
def locate (f : Folder) (path : String) : Except ReadFault Location :=
  if path.toList.contains '\x00' then .error .zeroByte
  else if path = "" then .error .notFound
  else if pathLimit < path.utf8ByteSize then .error .tooLong
  else (Location.steps path).foldlM f.enter (Location.start path)

def read (f : Folder) (path : String) : Except ReadFault (Array UInt8) := do
  let l ← f.locate path
  match f.file? l with
  | some content => .ok content
  | none => .error (if f.isDirectory l then .isDirectory else .notFound)

def readText (f : Folder) (path : String) : Except ReadFault String := do
  match String.fromUTF8? ⟨← f.read path⟩ with
  | some text => .ok text
  | none => .error .notText

/-- A file can be created or replaced: the way is there and does not lead to a directory. -/
def canCreate (f : Folder) (path : String) : Bool :=
  match f.locate path with
  | .ok l => !f.isDirectory l
  | .error _ => false

/-- The folder with one file written, and with the directories on the way. -/
def write (f : Folder) (path : String) (content : Array UInt8) : Folder where
  files := (.ofPath path, content) :: f.files.filter (·.1 ≠ .ofPath path)
  directories := Location.before (.start path) (Location.steps path) ++ f.directories

/-- The folder with something added to a file, which is there from then on. -/
def append (f : Folder) (path : String) (content : Array UInt8) : Folder :=
  f.write path ((f.file? (.ofPath path)).getD #[] ++ content)

def ofFiles (files : List (String × Array UInt8)) : Folder :=
  files.foldl (fun f (path, content) => f.write path content) {}

end Folder

end Chiptune
