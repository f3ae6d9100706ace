/-!
# The pace of live playback

Ticks are due one period after another. Between two of them a player sleeps until the next one is due.
A tick that is late is followed at once by the next one, so that the lost time is made up for, unless
playback is more than four periods behind: then it counts on from the present.

Times are nanoseconds of a clock that does not go back.
-/
namespace Chiptune

/-- When ticks are due. -/
structure Pace where
  /-- From one tick to the next. -/
  period : Nat
  /-- When the latest tick was due. -/
  due : Nat

/-- What happens between two ticks. -/
inductive Pause where
  /-- Sleep until the next tick is due. -/
  | sleep (duration : Nat)
  /-- The next tick is due. -/
  | none
  /-- The next tick has been due for too long; later ones are due a period after the present. -/
  | resync (behind : Nat)
deriving DecidableEq

namespace Pace

/-- The pace of `rate` ticks a second, the first of them due at `now`. -/
def ofRate (rate now : Nat) : Pace := ⟨1000000000 / rate, now⟩

/-- The pace and the pause after a tick that ended at `now`. -/
def next (p : Pace) (now : Nat) : Pace × Pause :=
  let due := p.due + p.period
  if now < due then ({ p with due }, .sleep (due - now))
  else if p.period * 4 < now - due then ({ p with due := now }, .resync (now - due))
  else ({ p with due }, .none)

end Pace

end Chiptune
