import Chiptune.Tuning
import Chiptune.Instrument.Bank
/-!
# Sound banks

What playback looks up: a tuning for the notes and a bank for the instruments.
-/
namespace Chiptune

/-- A tuning and an instrument bank. -/
structure Soundbank where
  tuning : Tuning
  instruments : InstrumentBank

def Soundbank.reference : Soundbank := ⟨.reference, .reference⟩

/-- Frequencies and instruments are those of the reference. -/
def Soundbank.isReference (b : Soundbank) : Bool :=
  b.tuning.frequencies == Tuning.reference.frequencies &&
    b.instruments.instruments == InstrumentBank.reference.instruments

end Chiptune
