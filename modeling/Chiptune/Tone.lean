/-!
# Tones and host calls

A tone has nine fields, and the host takes it in a call of four 32-bit words with the fields at fixed
positions:

    frequency   frequency | slideTo << 16
    envelope    sustain | release << 8 | decay << 16 | attack << 24
    volume      volume
    flags       channel | mode << 2

Fields are joined without masking, so a field wider than its place reaches into the next one, and
bits shifted past the word are lost.
-/
namespace Chiptune

/-- A tone. The defaults are the audible test tone: 500 Hz, sustained, at volume 100. -/
structure Tone where
  /-- Hertz at the start. -/
  frequency : UInt32 := 500
  /-- Hertz to slide to; zero does not slide. -/
  slideTo : UInt32 := 0
  attack : UInt32 := 0
  decay : UInt32 := 0
  sustain : UInt32 := 30
  release : UInt32 := 0
  volume : UInt32 := 100
  channel : UInt32 := 0
  mode : UInt32 := 0
deriving DecidableEq

/-- The words of a host call. -/
structure HostCall where
  frequency : UInt32
  envelope : UInt32
  volume : UInt32
  flags : UInt32
deriving DecidableEq

/-! ## Positions of the fields -/

/-- `slideTo` in the frequency word. -/
def slideShift : UInt32 := 16

/-- `attack` in the envelope word. -/
def attackShift : UInt32 := 24

/-- `decay` in the envelope word. -/
def decayShift : UInt32 := 16

/-- `release` in the envelope word. -/
def releaseShift : UInt32 := 8

/-- `mode` in the flags word. -/
def modeShift : UInt32 := 2

/-- The call that requests a tone. -/
def Tone.pack (t : Tone) : HostCall where
  frequency := t.frequency ||| t.slideTo <<< slideShift
  envelope := t.attack <<< attackShift ||| t.decay <<< decayShift ||| t.sustain |||
    t.release <<< releaseShift
  volume := t.volume
  flags := t.channel ||| t.mode <<< modeShift

end Chiptune
