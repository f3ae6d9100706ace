import Chiptune.Toml.Text
import Chiptune.Toml.Scalar
/-!
# TOML documents

`Toml.parse` reads a document into its table, or gives nothing if it breaks a rule: of the grammar
(version 1.0, with the line ends, comments and last comma that 1.1 allows inside inline tables), of
what may be defined twice, or of nesting, which goes less than 80 deep.

Values nest at most `depthLimit` deep, so they are read by recursion on the depth that is left. The
lists inside them are read element by element, and an element takes at least one character, so the
number of characters bounds the number of elements.
-/
namespace Chiptune.Toml

/-! ## Keys -/

/-- Characters of a key without quotes. -/
def isKeyChar (c : Char) : Bool := c.isAlphanum || c = '_' || c = '-'

/-- One key, bare or in quotes. -/
def key? (cs : List Char) : Option (String × List Char) :=
  match cs with
  | '"' :: rest => basicText [] rest
  | '\'' :: rest => literalText [] rest
  | cs =>
    match cs.takeWhile isKeyChar with
    | [] => none
    | name => some (.ofList name, cs.dropWhile isKeyChar)

/-- Keys joined by dots, at most `bound`, given as the leading ones and the last, with the rest behind
blanks. -/
def keysUpTo? (bound : Nat) (cs : List Char) : Option (List String × String × List Char) :=
  match bound with
  | 0 => none
  | bound + 1 => do
    let (key, cs) ← key? cs
    match skipBlanks cs with
    | '.' :: rest =>
      let (path, last, cs) ← keysUpTo? bound (skipBlanks rest)
      return (key :: path, last, cs)
    | cs => return ([], key, cs)

/-- Keys that may be joined by dots. -/
def keyLimit : Nat := 80

/-- A key, dotted or not. -/
def keyPath? (cs : List Char) : Option (List String × String × List Char) := keysUpTo? keyLimit cs

/-! ## Values -/

/-- Reads a value from the front of a text. -/
abbrev Reader := List Char → Option (Value × List Char)

/-- A string or a scalar. -/
def flat : Reader
  | '"' :: '"' :: '"' :: rest => do
    let (content, rest) ← basicLines .off [] (trimFirst rest)
    return (.text content, rest)
  | '"' :: rest => do
    let (content, rest) ← basicText [] rest
    return (.text content, rest)
  | '\'' :: '\'' :: '\'' :: rest => do
    let (content, rest) ← literalLines [] (trimFirst rest)
    return (.text content, rest)
  | '\'' :: rest => do
    let (content, rest) ← literalText [] rest
    return (.text content, rest)
  | cs => do
    let (front, rest) := splitScalar cs
    return (← scalarValue? front, rest)

/-- The elements of an array up to its closing bracket; `done` are those read, latest first. -/
def items (read : Reader) : Nat → List Value → Reader
  | 0, _, _ => none
  | bound + 1, done, cs => do
    match ← skipGap false cs with
    | ']' :: rest => return (.array done.reverse, rest)
    | cs =>
      let (value, cs) ← read cs
      match ← skipGap false cs with
      | ',' :: rest => items read bound (value :: done) rest
      | ']' :: rest => return (.array (value :: done).reverse, rest)
      | _ => none

/-- The entries of an inline table up to its closing brace. -/
def fields (read : Reader) : Nat → Entries → Reader
  | 0, _, _ => none
  | bound + 1, done, cs => do
    match ← skipGap false cs with
    | '}' :: rest => return (.table .inline done, rest)
    | cs =>
      let (path, key, cs) ← keyPath? cs
      match ← skipGap false cs with
      | '=' :: rest =>
        let (value, cs) ← read (← skipGap false rest)
        let done ← done.define key value path
        match ← skipGap false cs with
        | ',' :: rest => fields read bound done rest
        | '}' :: rest => return (.table .inline done, rest)
        | _ => none
      | _ => none

/-- Brackets and braces that may be open at once. -/
def depthLimit : Nat := 80

/-- A value in which `depth` more brackets may be opened. -/
def value (depth : Nat) : Reader := fun cs =>
  match depth with
  | 0 => flat cs
  | depth + 1 =>
    match cs with
    | '[' :: rest => items (value depth) (rest.length + 1) [] rest
    | '{' :: rest => fields (value depth) (rest.length + 1) [] rest
    | cs => flat cs

/-! ## Lines -/

/-- A document as far as it is read: its table, and the path of the header in force. -/
structure Draft where
  root : Entries := []
  header : List String := []

/-- A header of a table, behind its bracket. -/
def tableHeader (d : Draft) (cs : List Char) : Option (Draft × List Char) := do
  let (path, key, cs) ← keyPath? (skipBlanks cs)
  match cs with
  | ']' :: rest =>
    let root ← d.root.within (·.openTable key) path
    return (⟨root, path ++ [key]⟩, rest)
  | _ => none

/-- A header of an element of an array of tables, behind its brackets. -/
def elementHeader (d : Draft) (cs : List Char) : Option (Draft × List Char) := do
  let (path, key, cs) ← keyPath? (skipBlanks cs)
  match cs with
  | ']' :: ']' :: rest =>
    let root ← d.root.within (·.openElement key) path
    return (⟨root, path ++ [key]⟩, rest)
  | _ => none

/-- A key with its value. -/
def keyValue (d : Draft) (cs : List Char) : Option (Draft × List Char) := do
  let (path, key, cs) ← keyPath? cs
  match cs with
  | '=' :: rest =>
    let (v, rest) ← value depthLimit (skipBlanks rest)
    let root ← d.root.within (·.define key v path) d.header
    return ({ d with root }, rest)
  | _ => none

/-- One header or key. -/
def statement (d : Draft) (cs : List Char) : Option (Draft × List Char) :=
  match cs with
  | '[' :: '[' :: rest => elementHeader d rest
  | '[' :: rest => tableHeader d rest
  | cs => keyValue d cs

/-- All statements of a document; each is alone on its line. -/
def statements : Nat → Draft → List Char → Option Entries
  | 0, _, _ => none
  | bound + 1, d, cs => do
    match ← skipGap false cs with
    | [] => return d.root
    | cs =>
      let (d, cs) ← statement d cs
      statements bound d (← lineEnd cs)

/-- The rest behind a byte order mark. -/
def skipMark : List Char → List Char
  | '\uFEFF' :: rest => rest
  | cs => cs

def parse (text : String) : Option Entries :=
  let cs := skipMark text.toList
  statements (cs.length + 1) {} cs

end Chiptune.Toml
