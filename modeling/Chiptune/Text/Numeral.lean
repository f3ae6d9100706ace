/-!
# Numerals

Numbers as text, in decimal and in upper-case hexadecimal, and set right in a column; decimal digits
read back; and durations.
-/
namespace Chiptune.Text

/-- The decimal digits of a number, without leading zeros. -/
def decimal (n : Nat) : List Char := Nat.toDigits 10 n

/-- The hexadecimal digits of a number, letters in upper case, without leading zeros. -/
def hex (n : Nat) : List Char := (Nat.toDigits 16 n).map Char.toUpper

/-- A decimal number set right in a column; a longer number keeps all its digits. -/
def decimalColumn (width n : Nat) : List Char := (decimal n).leftpad width ' '

/-- A decimal number with leading zeros up to a width. -/
def decimalZeros (width n : Nat) : List Char := (decimal n).leftpad width '0'

/-- A hexadecimal number with leading zeros up to a width. -/
def hexZeros (width n : Nat) : List Char := (hex n).leftpad width '0'

/-- The number with these decimal digits; there is at least one, and nothing else. -/
def natural? (cs : List Char) : Option Nat :=
  if cs.isEmpty || !cs.all Char.isDigit then none else some (Nat.ofDigitChars 10 cs 0)

/-! ## Durations -/

/-- The decimal places of so many parts, `10 ^ places` of which make one; zeros at the end are left out. -/
def fraction : Nat → Nat → List Char
  | 0, _ => []
  | places + 1, parts =>
    let unit := Nat.pow 10 places
    if parts = 0 then [] else Nat.digitChar (parts / unit) :: fraction places (parts % unit)

/-- So many parts, `10 ^ places` of which make one, without a point where no places are left. -/
def inUnits (places parts : Nat) : List Char :=
  let unit := Nat.pow 10 places
  let whole := decimal (parts / unit)
  match fraction places (parts % unit) with
  | [] => whole
  | digits => whole ++ '.' :: digits

/-- A number of nanoseconds, in the largest unit that they fill. -/
def duration (ns : Nat) : List Char :=
  if 1000000000 ≤ ns then inUnits 9 ns ++ "s".toList
  else if 1000000 ≤ ns then inUnits 6 ns ++ "ms".toList
  else if 1000 ≤ ns then inUnits 3 ns ++ "µs".toList
  else inUnits 0 ns ++ "ns".toList

end Chiptune.Text
