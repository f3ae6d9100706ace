/-!
# Sixty-four bits

Sizes, positions and tick counts are numbers of 64 bits.
-/
namespace Chiptune

/-- The first number that does not fit in 64 bits, `2 ^ 64`. -/
def word64Limit : Nat := 0x10000000000000000

/-- The number itself, if it fits in 64 bits. -/
def word64? (n : Nat) : Option Nat := if n < word64Limit then some n else none

end Chiptune
