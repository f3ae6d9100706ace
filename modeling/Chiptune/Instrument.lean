import Chiptune.TableFault
/-!
# Instruments

The host has four channels and, on its two pulse channels, four duty modes. An instrument is a
channel with a mode; both have a two-bit code, their position in the list below.
-/
namespace Chiptune

/-- A host channel, in the order of its code. -/
inductive Channel where
  | pulse1
  | pulse2
  | triangle
  | noise
deriving DecidableEq

namespace Channel

def code : Channel → UInt8
  | pulse1 => 0
  | pulse2 => 1
  | triangle => 2
  | noise => 3

/-- The channel in the low two bits; higher bits are ignored. -/
def ofBits (bits : UInt8) : Channel :=
  match bits.toNat % 4 with
  | 0 => pulse1
  | 1 => pulse2
  | 2 => triangle
  | _ => noise

/-- Only the pulse channels have a duty mode. -/
def isPulse : Channel → Bool
  | pulse1 | pulse2 => true
  | triangle | noise => false

def name : Channel → String
  | pulse1 => "pulse1"
  | pulse2 => "pulse2"
  | triangle => "triangle"
  | noise => "noise"

end Channel

/-- The share of a pulse that is high, in the order of its code. -/
inductive Duty where
  | eighth
  | quarter
  | half
  | threeQuarters
deriving DecidableEq

namespace Duty

def code : Duty → UInt8
  | eighth => 0
  | quarter => 1
  | half => 2
  | threeQuarters => 3

/-- The duty mode in the low two bits; higher bits are ignored. -/
def ofBits (bits : UInt8) : Duty :=
  match bits.toNat % 4 with
  | 0 => eighth
  | 1 => quarter
  | 2 => half
  | _ => threeQuarters

def percent : Duty → String
  | eighth => "12.5%"
  | quarter => "25%"
  | half => "50%"
  | threeQuarters => "75%"

end Duty

/-- A channel and the duty mode it is played with. -/
structure Instrument where
  channel : Channel := .pulse1
  duty : Duty := .eighth
deriving DecidableEq

namespace Instrument

/-- The instrument with these codes; a code above 3 is refused, the channel being looked at first. -/
def ofCodes (channel mode : UInt8) : Except TableFault Instrument :=
  if 3 < channel then .error (.outOfRange .channel channel)
  else if 3 < mode then .error (.outOfRange .mode mode)
  else .ok ⟨.ofBits channel, .ofBits mode⟩

/-- The channel's name and, where there is one, its duty. -/
def label (i : Instrument) : String :=
  if i.channel.isPulse then i.channel.name ++ " " ++ i.duty.percent else i.channel.name

end Instrument

end Chiptune
