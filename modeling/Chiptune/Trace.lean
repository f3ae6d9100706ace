import Chiptune.Tone
import Chiptune.Text.Numeral
/-!
# Traces

A trace is the list of host calls with the tick and the track that made them. Its text is a line of
column heads and one line per call; ticks, tracks and volumes are decimal, the other words
hexadecimal:

        tick track  frequency  envelope   vol flag
          12     1  0x000001B8 0x00000400 100 0x0A

The text is made in small pieces. Written into a buffer of bounded room, each piece is stored as far
as it fits, and the first that does not fit ends the writing (`Trace.write`).
-/
namespace Chiptune

namespace Trace

/-- A host call, with the tick and the track that made it. -/
structure Event where
  tick : Nat
  track : Nat
  call : HostCall
deriving DecidableEq

/-- A hexadecimal word of at least `width` digits. -/
def wordText (width : Nat) (word : UInt32) : List Char :=
  "0x".toList ++ Text.hexZeros width word.toNat

def Event.pieces (e : Event) : List (List Char) := [
  Text.decimalColumn 8 e.tick, " ".toList,
  Text.decimalColumn 5 e.track, "  ".toList,
  wordText 8 e.call.frequency, " ".toList,
  wordText 8 e.call.envelope, " ".toList,
  Text.decimalColumn 3 e.call.volume.toNat, " ".toList,
  wordText 2 e.call.flags]

/-- The line of a call, without its end. -/
def Event.line (e : Event) : String := String.ofList e.pieces.flatten

def header : String := "    tick track  frequency  envelope   vol flag"

/-- The pieces of the text, each line ended by a newline. -/
def pieces (events : List Event) : List (List Char) :=
  header.toList :: ['\n'] :: events.flatMap fun e => e.pieces ++ [['\n']]

def text (events : List Event) : String := String.ofList (pieces events).flatten

end Trace

/-! ## Bounded room -/

/-- Bytes written in order, and the room left for more. -/
structure Buffer where
  written : List UInt8 := []
  room : Nat

namespace Buffer

/-- Stores what fits of a piece, and tells whether all of it did. -/
def write (b : Buffer) (piece : List UInt8) : Buffer × Bool :=
  (⟨b.written ++ piece.take b.room, b.room - piece.length⟩, piece.length ≤ b.room)

/-- Writes pieces until one does not fit, and tells whether all did. -/
def writeAll (b : Buffer) : List (List UInt8) → Buffer × Bool
  | [] => (b, true)
  | piece :: rest =>
    match b.write piece with
    | (b, true) => b.writeAll rest
    | (b, false) => (b, false)

end Buffer

namespace Trace

def encode (piece : List Char) : List UInt8 := (String.ofList piece).toUTF8.data.toList

/-- Writes the text of a trace into a buffer with this much room. -/
def write (room : Nat) (events : List Event) : Buffer × Bool :=
  (Buffer.mk [] room).writeAll ((pieces events).map encode)

end Trace

end Chiptune
