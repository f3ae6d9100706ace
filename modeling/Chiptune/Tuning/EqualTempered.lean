import Chiptune.Number.Binary32
/-!
# Equal temperament

Note `n` over a base frequency sounds at `base * 2 ^ (n / 12)`, worked out in single precision:
quotient, power and product are each rounded, and the result is rounded to a whole number of hertz.

The power of two is a fixed sequence of single-precision operations (`exp2`), not the correctly
rounded value: the exponent is split into a whole number and a rest of at most one half, and a
rational function of degree five gives the power of the rest. The last bit of a note can depend on
each step, so the steps are written out.
-/
namespace Chiptune.EqualTempered

open Binary32

/-! ## Constants -/

def unit : Binary32 := ofNat 1

def two : Binary32 := ofNat 2

def log2 : Binary32 := ofBits 0x3F317218

/-- The leading digits of the logarithm of two. -/
def log2High : Binary32 := ofBits 0x3F317200

/-- What `log2High` leaves. -/
def log2Low : Binary32 := ofBits 0x35BFBE8C

def sqrtTwo : Binary32 := ofBits 0x3FB504F3

/-- Coefficients of `x (e ^ x + 1) / (e ^ x - 1) - 2` in even powers of `x`, constant term left
out. -/
def p1 : Binary32 := ofBits 0x3E2AAAAB

@[inherit_doc p1] def p2 : Binary32 := ofBits 0xBB360B61

@[inherit_doc p1] def p3 : Binary32 := ofBits 0x388AB355

@[inherit_doc p1] def p4 : Binary32 := ofBits 0xB5DDEA0E

@[inherit_doc p1] def p5 : Binary32 := ofBits 0x3331BB4C

/-! ## The power -/

/-- `2 ^ x` for `x = whole + (high + low - whole)`, without the factor `2 ^ whole`. -/
def fractionPower (whole : Nat) (high low : Binary32) : Binary32 :=
  let rest := high - ofNat whole
  let t := (low + rest).truncate 15
  let u := t * log2High
  let v := (low - (t - rest)) * log2 + t * log2Low
  let z := u + v
  let w := v - (z - u)
  let s := z * z
  let c := z - s * (p1 + s * (p2 + s * (p3 + s * (p4 + s * p5))))
  let r := z * c / (c - two) - (w + z * w)
  unit - (r - z)

/-- A number times `2 ^ count`, in range. -/
def scaleUp (count : Nat) : Binary32 → Binary32
  | .finite s a => .finite s (a <<< count)
  | x => x

/-- Two to the power of `units` units: one half gives the square root, and from 128 on the power is
out of range. -/
def exp2 (units : Nat) : Binary32 :=
  if units = one / 2 then sqrtTwo
  else if 128 * one ≤ units then .infinite false
  else
    let x : Binary32 := .finite false units
    let whole := roundHalfUp units
    let high := x.truncate 12
    scaleUp whole (fractionPower whole high (x - high))

/-- Two to the power of a number without sign; infinity and NaN are their own powers. -/
def power : Binary32 → Binary32
  | .finite _ units => exp2 units
  | x => x

/-- The ratio of note `note` to the base. -/
def ratio (note : Nat) : Binary32 := power (ofNat note / ofNat 12)

/-- The frequency of note `note`, from 0 to 65535. -/
def frequency (base : Binary32) (note : Nat) : UInt16 := (base * ratio note).toWord16

/-- The frequencies of the first `count` notes. -/
def scale (base : Binary32) (count : Nat) : List UInt16 := (List.range count).map (frequency base)

end Chiptune.EqualTempered
