import Chiptune.Number.Binary32
/-!
# Decimal fractions

A decimal fraction is a whole number of digits and a power of ten, as written in a text. As a
single-precision number it is rounded twice, to 53 significant digits (double precision) and then
to 24; a fraction beyond double precision has no value.
-/
namespace Chiptune

/-- `digits * 10 ^ exponent` with a sign, or one of the values that are written as words. -/
inductive Decimal where
  | nan
  | infinite (negative : Bool)
  | finite (negative : Bool) (digits : Nat) (exponent : Int)
deriving DecidableEq

namespace Decimal

/-- Significant binary digits in double precision. -/
def doubleDigits : Nat := 53

/-- The number one, in the units `2 ^ -1074` of double precision. -/
def doubleOne : Nat := Nat.pow 2 1074

/-- The first magnitude out of double precision, `2 ^ 1024`, in units. -/
def doubleLimit : Nat := Nat.pow 2 2098

/-- From this power of ten on a number is out of double precision, and below its inverse it is less
than half a unit. -/
def extreme : Int := 400

/-- `digits * 10 ^ exponent` in double precision, in units. -/
def toDouble (digits : Nat) (exponent : Int) : Nat :=
  Rounding.nearestSignificant doubleDigits (digits * Nat.pow 10 exponent.toNat * doubleOne)
    (Nat.pow 10 (-exponent).toNat)

/-- The single-precision number, if the fraction is in the range of double precision. -/
def toBinary32? : Decimal → Option Binary32
  | nan => some .nan
  | infinite negative => some (.infinite negative)
  | finite negative digits exponent =>
    let places := (Nat.toDigits 10 digits).length + exponent
    if digits = 0 ∨ places < -extreme then some (.finite negative 0)
    else if extreme < places then none
    else
      let units := toDouble digits exponent
      if units < doubleLimit then some (.ofRatio negative (units * Binary32.one) doubleOne) else none

end Decimal

end Chiptune
