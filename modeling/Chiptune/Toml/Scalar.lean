import Chiptune.Toml.Value
import Chiptune.Toml.Text
/-!
# TOML scalars

Numbers, truth values, dates and times: what is written without quotes or brackets. Digits may be set
apart by single underscores between them. A decimal number has no leading zeros; the other bases have
a mark in front and no sign.

A whole number is told by its first characters, and of the others only those beside an underscore are
looked at. So a text such as `0x` or `1_0z` is a whole number too, one without a value
(`Value.unreadable`).
-/
namespace Chiptune.Toml

/-! ## Digits -/

/-- The value of a digit, letters counting from ten. -/
def digitValue (c : Char) : Nat :=
  if c.isDigit then c.toNat - '0'.toNat else c.toLower.toNat - 'a'.toNat + 10

/-- A digit of the given base, up to sixteen. -/
def isDigitOf (base : Nat) (c : Char) : Bool := c.isAlphanum && digitValue c < base

/-- The number with these digits. -/
def ofDigits (base : Nat) (digits : List Char) : Nat :=
  digits.foldl (fun n c => base * n + digitValue c) 0

/-- The characters behind a place in a number, their underscores removed. Each underscore stands between
two digits; `behindDigit` tells whether there is a digit before the place. -/
def ungroupFrom (isDigit : Char → Bool) (behindDigit : Bool) : List Char → Option (List Char)
  | [] => some []
  | '_' :: rest =>
    if behindDigit && rest.head?.any isDigit then ungroupFrom isDigit false rest else none
  | c :: rest => (c :: ·) <$> ungroupFrom isDigit (isDigit c) rest

/-- The characters of a number, their underscores removed. -/
def ungroup (isDigit : Char → Bool) (cs : List Char) : Option (List Char) :=
  ungroupFrom isDigit false cs

/-! ## Numbers -/

/-- The whole number with these digits; other characters leave it without a value, and so does having
no digit. -/
def wholeValue (base : Nat) (negative : Bool) (digits : List Char) : Value :=
  if !digits.isEmpty && digits.all (isDigitOf base) then
    .integer (if negative then -(ofDigits base digits : Int) else ofDigits base digits)
  else .unreadable

/-- A whole number behind the mark of its base. -/
def markedWhole? (base : Nat) (cs : List Char) : Option Value :=
  if cs.all fun c => isDigitOf base c || c = '_' then
    wholeValue base false <$> ungroup (isDigitOf base) cs
  else none

/-- The exponent behind its mark. -/
def exponent? (cs : List Char) : Option Int :=
  let digits? (cs : List Char) : Option Int :=
    if !cs.isEmpty && cs.all Char.isDigit then some (ofDigits 10 cs) else none
  match cs with
  | '-' :: rest => (- ·) <$> digits? rest
  | '+' :: rest => digits? rest
  | rest => digits? rest

/-- A fraction without underscores: digits with a point and more digits, an exponent or both. -/
def fraction? (negative : Bool) (cs : List Char) : Option Value :=
  let whole := cs.takeWhile Char.isDigit
  if whole.isEmpty then none
  else
    let value (places : List Char) (exponent : Int) : Value :=
      .fraction (.finite negative (ofDigits 10 (whole ++ places)) (exponent - places.length))
    let tail? (places : List Char) : List Char → Option Value
      | [] => some (value places 0)
      | mark :: rest =>
        if mark = 'e' ∨ mark = 'E' then value places <$> exponent? rest else none
    match cs.dropWhile Char.isDigit with
    | '.' :: rest =>
      let places := rest.takeWhile Char.isDigit
      if places.isEmpty then none else tail? places (rest.dropWhile Char.isDigit)
    | rest => tail? [] rest

/-- A zero that is followed by more of its number. -/
def startsWithSpareZero : List Char → Bool
  | '0' :: c :: _ => c.isDigit || c = '_'
  | _ => false

/-- A decimal number behind its sign. What follows the first digits tells a fraction from a whole
number. -/
def decimal? (negative : Bool) (cs : List Char) : Option Value :=
  let rest := cs.dropWhile Char.isDigit
  if startsWithSpareZero cs || rest.contains ' ' then none
  else if rest.any fun c => c = '.' || c = 'e' || c = 'E' then do
    fraction? negative (← ungroup Char.isDigit cs)
  else if rest.isEmpty || rest.head? = some '_' then
    wholeValue 10 negative <$> ungroup (isDigitOf 16) cs
  else none

/-- A number that may have a sign. -/
def signable? (negative : Bool) (cs : List Char) : Option Value :=
  if cs = "inf".toList then some (.fraction (.infinite negative))
  else if cs = "nan".toList then some (.fraction .nan)
  else if cs.isEmpty then none
  else decimal? negative cs

def number? (cs : List Char) : Option Value :=
  match cs with
  | '+' :: rest => signable? false rest
  | '-' :: rest => signable? true rest
  | '0' :: 'x' :: rest => markedWhole? 16 rest
  | '0' :: 'o' :: rest => markedWhole? 8 rest
  | '0' :: 'b' :: rest => markedWhole? 2 rest
  | rest => signable? false rest

/-! ## Dates and times -/

/-- A number of exactly `count` digits. -/
def fixed? (count : Nat) (cs : List Char) : Option (Nat × List Char) :=
  let digits := cs.take count
  if digits.length = count ∧ digits.all Char.isDigit then some (ofDigits 10 digits, cs.drop count)
  else none

/-- The rest behind an expected character. -/
def expect? (c : Char) : List Char → Option (List Char)
  | d :: rest => if c = d then some rest else none
  | [] => none

def daysIn (year month : Nat) : Nat :=
  match month with
  | 2 => if year % 4 = 0 ∧ (year % 100 ≠ 0 ∨ year % 400 = 0) then 29 else 28
  | 4 | 6 | 9 | 11 => 30
  | _ => 31

/-- The rest behind a day of the calendar. -/
def date? (cs : List Char) : Option (List Char) := do
  let (year, cs) ← fixed? 4 cs
  let (month, cs) ← fixed? 2 (← expect? '-' cs)
  let (day, cs) ← fixed? 2 (← expect? '-' cs)
  if 1 ≤ month ∧ month ≤ 12 ∧ 1 ≤ day ∧ day ≤ daysIn year month then some cs else none

/-- The rest behind the digits of a fraction of a second, if there are any. -/
def secondFraction? (cs : List Char) : Option (List Char) :=
  match cs with
  | '.' :: rest =>
    match rest.takeWhile Char.isDigit with
    | [] => none
    | _ :: _ => some (rest.dropWhile Char.isDigit)
  | rest => some rest

/-- The rest behind a time of day; seconds may be left out. -/
def time? (cs : List Char) : Option (List Char) := do
  let (hour, cs) ← fixed? 2 cs
  let (minute, cs) ← fixed? 2 (← expect? ':' cs)
  if hour ≤ 23 ∧ minute ≤ 59 then
    match cs with
    | ':' :: rest =>
      let (second, rest) ← fixed? 2 rest
      if second ≤ 60 then secondFraction? rest else none
    | rest => some rest
  else none

/-- The rest behind an offset from universal time, if there is one. -/
def offset? (cs : List Char) : Option (List Char) :=
  match cs with
  | [] => some []
  | sign :: rest =>
    if sign = 'Z' ∨ sign = 'z' then some rest
    else if sign = '+' ∨ sign = '-' then do
      let (hour, cs) ← fixed? 2 rest
      let (minute, cs) ← fixed? 2 (← expect? ':' cs)
      if hour ≤ 23 ∧ minute ≤ 59 then some cs else none
    else none

/-- The rest behind a date with or without a time, or behind a time alone. -/
def pastMoment? (cs : List Char) : Option (List Char) :=
  match date? cs with
  | none => time? cs
  | some [] => some []
  | some (mark :: rest) =>
    if mark = 'T' ∨ mark = 't' ∨ mark = ' ' then do offset? (← time? rest) else none

/-- A date, a time or both. -/
def moment? (cs : List Char) : Option Value :=
  match pastMoment? cs with
  | some [] => some (.moment (.ofList cs))
  | _ => none

/-! ## Scalars -/

/-- A value written without quotes or brackets. -/
def scalarValue? (cs : List Char) : Option Value :=
  if cs = "true".toList then some (.boolean true)
  else if cs = "false".toList then some (.boolean false)
  else (number? cs).orElse fun _ => moment? cs

/-- Where an unquoted value ends at the latest. -/
def endsScalar (c : Char) : Bool := "\n\r#=,[]\x7b\x7d".toList.contains c

/-- Nothing of an unquoted value is left: what follows the blanks ends it or starts a string. -/
def isPastScalar (cs : List Char) : Bool :=
  match skipBlanks cs with
  | [] => true
  | c :: _ => endsScalar c || c = '"' || c = '\''

/-- The unquoted value at the front of a text, and the rest. Blanks inside it belong to it. -/
def splitScalar : List Char → List Char × List Char
  | [] => ([], [])
  | c :: rest =>
    if endsScalar c || (isBlank c && isPastScalar rest) then ([], c :: rest)
    else
      let (front, rest) := splitScalar rest
      (c :: front, rest)

end Chiptune.Toml
