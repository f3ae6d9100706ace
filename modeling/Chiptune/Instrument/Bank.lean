import Chiptune.Instrument
/-!
# Instrument banks

A track names its instrument by a byte. A bank holds at least one instrument and answers every byte:
numbers past its end start over.
-/
namespace Chiptune

/-- At least one instrument. -/
structure InstrumentBank where
  instruments : List Instrument
  nonempty : 0 < instruments.length

namespace InstrumentBank

def ofList (instruments : List Instrument) : Except TableFault InstrumentBank :=
  if h : 0 < instruments.length then .ok ⟨instruments, h⟩ else .error .empty

def size (b : InstrumentBank) : Nat := b.instruments.length

/-- The instrument of a number, counted modulo the size. -/
def resolve (b : InstrumentBank) (number : UInt8) : Instrument :=
  have := Nat.mod_lt number.toNat b.nonempty
  b.instruments[number.toNat % b.instruments.length]

/-- The triangle, then both pulse channels at every duty. -/
def reference : InstrumentBank where
  instruments := [
    ⟨.triangle, .eighth⟩,
    ⟨.pulse1, .half⟩, ⟨.pulse1, .threeQuarters⟩, ⟨.pulse1, .quarter⟩, ⟨.pulse1, .eighth⟩,
    ⟨.pulse2, .half⟩, ⟨.pulse2, .threeQuarters⟩, ⟨.pulse2, .quarter⟩, ⟨.pulse2, .eighth⟩]
  nonempty := by decide

end InstrumentBank

end Chiptune
