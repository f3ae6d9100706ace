import Chiptune.Number.Decimal
/-!
# TOML values and tables

A document is a table: keys with values, each key once. A table remembers how it came to be, since
that decides what may still be added to it: a header may name a table that so far was only implied by
longer headers, dotted keys may extend a table that dotted keys have made, and a table written as a
value is closed.
-/
namespace Chiptune.Toml

/-- How a table came to be. -/
inductive TableKind where
  /-- Part of a longer header. -/
  | implied
  /-- Its own header, or an element of an array of tables. -/
  | headed
  /-- A dotted key. -/
  | dotted
  /-- Written as a value. -/
  | inline
deriving DecidableEq

/-- A value of a document. -/
inductive Value where
  | text (content : String)
  | integer (n : Int)
  /-- A whole number without a value. It is refused only where it is used. -/
  | unreadable
  | fraction (d : Decimal)
  | boolean (b : Bool)
  /-- A date, a time of day or both, as written. -/
  | moment (content : String)
  | array (items : List Value)
  /-- An array of tables that have a header each. -/
  | tables (items : List (List (String × Value)))
  | table (kind : TableKind) (entries : List (String × Value))

/-- Keys with their values, in the order of the document. -/
abbrev Entries := List (String × Value)

namespace Entries

def get? (entries : Entries) (key : String) : Option Value := entries.lookup key

/-- The entries with the value of a present key replaced. -/
def replace (entries : Entries) (key : String) (value : Value) : Entries :=
  entries.map fun (k, v) => if k = key then (k, value) else (k, v)

/-- Adds a key that is not there yet, below the tables named by the dotted part `path`. -/
def define (key : String) (value : Value) : List String → Entries → Option Entries
  | [], entries =>
    match entries.get? key with
    | none => some (entries ++ [(key, value)])
    | some _ => none
  | step :: path, entries =>
    match entries.get? step with
    | none => do return entries ++ [(step, .table .dotted (← define key value path []))]
    | some (.table .dotted inner) => do
      return entries.replace step (.table .dotted (← define key value path inner))
    | some _ => none

/-- Changes the table that a header path leads to. Tables on the way that are missing are implied, an
array of tables stands for its latest element, and a table written as a value is not entered. -/
def within (change : Entries → Option Entries) : List String → Entries → Option Entries
  | [], entries => change entries
  | step :: path, entries =>
    match entries.get? step with
    | none => do return entries ++ [(step, .table .implied (← within change path []))]
    | some (.table .inline _) => none
    | some (.table kind inner) => do
      return entries.replace step (.table kind (← within change path inner))
    | some (.tables items) =>
      match items.getLast? with
      | none => none
      | some last => do
        return entries.replace step (.tables (items.dropLast ++ [← within change path last]))
    | some _ => none

/-- Opens a table by its header. -/
def openTable (key : String) (entries : Entries) : Option Entries :=
  match entries.get? key with
  | none => some (entries ++ [(key, .table .headed [])])
  | some (.table .implied inner) => some (entries.replace key (.table .headed inner))
  | some _ => none

/-- Opens one more element of an array of tables. -/
def openElement (key : String) (entries : Entries) : Option Entries :=
  match entries.get? key with
  | none => some (entries ++ [(key, .tables [[]])])
  | some (.tables items) => some (entries.replace key (.tables (items ++ [[]])))
  | some _ => none

end Entries

end Chiptune.Toml
