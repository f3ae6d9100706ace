/-!
# Rounding a quotient to a fixed number of binary digits

Numbers are non-negative and counted in some smallest unit. `nearestWhole num den` is the whole
number nearest to `num / den`, and `nearestSignificant digits num den` the number nearest to
`num / den` among those with at most `digits` significant binary digits. In both a tie goes to the
even neighbour. Nothing recurses, so closed values evaluate at once.
-/
namespace Chiptune.Rounding

/-- The whole number nearest to `num / den`, a tie going to the even one. -/
def nearestWhole (num den : Nat) : Nat :=
  let q := num / den
  let r := num % den
  if 2 * r < den then q
  else if den < 2 * r then q + 1
  else q + q % 2

/-- How many binary digits of `n` lie beyond its `digits` leading ones. -/
def excess (digits n : Nat) : Nat := n.log2 + 1 - digits

/-- The number nearest to `num / den` with at most `digits` significant binary digits. Below
`2 ^ digits` these are all whole numbers; above, the multiples of a power of two. -/
def nearestSignificant (digits num den : Nat) : Nat :=
  let shift := excess digits (num / den)
  nearestWhole num (den <<< shift) <<< shift

end Chiptune.Rounding
