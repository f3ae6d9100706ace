import Chiptune.Number.Rounding
/-!
# Single-precision numbers

A finite single-precision number is a whole multiple of the unit `2 ^ -149`, so it is kept as a sign
and a magnitude in units; a magnitude has at most 24 significant binary digits and is below `limit`.
Zeros keep their sign. All NaNs are one value, since nothing here tells them apart.

Sums, products and quotients are those of exact arithmetic, rounded once by `ofRatio`.
-/
namespace Chiptune

/-- A single-precision number; `units` counts multiples of `2 ^ -149`. -/
inductive Binary32 where
  | nan
  | infinite (negative : Bool)
  | finite (negative : Bool) (units : Nat)
deriving DecidableEq

namespace Binary32

/-- Significant binary digits of a finite number. -/
def digits : Nat := 24

/-- The number one, in units. -/
def one : Nat := Nat.pow 2 149

/-- The first magnitude out of range, `2 ^ 128`, in units. -/
def limit : Nat := Nat.pow 2 277

/-- The number nearest to `num / den` units; infinite when that leaves the range. -/
def ofRatio (negative : Bool) (num den : Nat) : Binary32 :=
  let units := Rounding.nearestSignificant digits num den
  if units < limit then .finite negative units else .infinite negative

/-- The number nearest to a whole number. -/
def ofInt (n : Int) : Binary32 := ofRatio (decide (n < 0)) (n.natAbs * one) 1

/-- The number nearest to a whole number that is not negative. -/
def ofNat (n : Nat) : Binary32 := ofRatio false (n * one) 1

/-! ## Bit patterns -/

/-- The bit of the sign. -/
def signBit : Nat := 0x80000000

/-- The lowest bit of the exponent, above 23 bits of the fraction. -/
def exponentStep : Nat := 0x800000

/-- The number of a pattern: a sign bit, eight exponent bits and 23 fraction bits. -/
def ofBits (bits : UInt32) : Binary32 :=
  let n := bits.toNat
  let negative := decide (signBit ≤ n)
  let exponent := n / exponentStep % 256
  let fraction := n % exponentStep
  if exponent = 255 then if fraction = 0 then .infinite negative else .nan
  else if exponent = 0 then .finite negative fraction
  else .finite negative ((exponentStep + fraction) <<< (exponent - 1))

/-- The bit pattern of a magnitude in units. Up to `2 ^ 24` units the pattern is the count itself;
each further doubling adds one to the exponent field. -/
def magnitudeBits (units : Nat) : Nat :=
  let shift := Rounding.excess digits units
  shift * exponentStep + units >>> shift

/-- The bit pattern, NaN being the quiet one without payload. -/
def toBits : Binary32 → UInt32
  | .nan => 0x7FC00000
  | .infinite negative => UInt32.ofNat ((if negative then signBit else 0) + 255 * exponentStep)
  | .finite negative units => UInt32.ofNat ((if negative then signBit else 0) + magnitudeBits units)

/-! ## Arithmetic -/

/-- A magnitude with its sign. -/
def signed (negative : Bool) (units : Nat) : Int := if negative then -units else units

/-- The same magnitude with the other sign. -/
def neg : Binary32 → Binary32
  | .nan => .nan
  | .infinite s => .infinite !s
  | .finite s a => .finite (!s) a

/-- The rounded sum; an exact zero is negative only when both terms are. -/
def add : Binary32 → Binary32 → Binary32
  | .nan, _ | _, .nan => .nan
  | .infinite s, .infinite t => if s = t then .infinite s else .nan
  | .infinite s, .finite _ _ => .infinite s
  | .finite _ _, .infinite t => .infinite t
  | .finite s a, .finite t b =>
    let sum := signed s a + signed t b
    ofRatio (if sum = 0 then s && t else decide (sum < 0)) sum.natAbs 1

/-- The rounded difference. -/
def sub (x y : Binary32) : Binary32 := x.add y.neg

/-- The rounded product; zero times infinity has no value. -/
def mul : Binary32 → Binary32 → Binary32
  | .nan, _ | _, .nan => .nan
  | .infinite s, .infinite t => .infinite (s ^^ t)
  | .infinite s, .finite t b => if b = 0 then .nan else .infinite (s ^^ t)
  | .finite s a, .infinite t => if a = 0 then .nan else .infinite (s ^^ t)
  | .finite s a, .finite t b => ofRatio (s ^^ t) (a * b) one

/-- The rounded quotient; zero by zero and infinity by infinity have no value. -/
def div : Binary32 → Binary32 → Binary32
  | .nan, _ | _, .nan => .nan
  | .infinite _, .infinite _ => .nan
  | .infinite s, .finite t _ => .infinite (s ^^ t)
  | .finite s _, .infinite t => .finite (s ^^ t) 0
  | .finite s a, .finite t b =>
    if b = 0 then if a = 0 then .nan else .infinite (s ^^ t) else ofRatio (s ^^ t) (a * one) b

instance : Add Binary32 := ⟨add⟩
instance : Sub Binary32 := ⟨sub⟩
instance : Mul Binary32 := ⟨mul⟩
instance : Div Binary32 := ⟨div⟩

/-! ## Parts of a number -/

/-- The number with the lowest `count` of its 24 significant digits set to zero. -/
def truncate (count : Nat) : Binary32 → Binary32
  | .finite s a =>
    let shift := Rounding.excess digits a + count
    .finite s (a >>> shift <<< shift)
  | x => x

/-- A magnitude in units as the nearest whole number, a half going up. -/
def roundHalfUp (units : Nat) : Nat := (units + one / 2) / one

/-- The nearest 16-bit word, a half going away from zero: what lies below the range gives 0, what
lies above it 65535, and NaN gives 0. -/
def toWord16 : Binary32 → UInt16
  | .nan => 0
  | .infinite negative => if negative then 0 else 65535
  | .finite negative units =>
    if negative then 0 else UInt16.ofNat (min (roundHalfUp units) 65535)

end Binary32

end Chiptune
