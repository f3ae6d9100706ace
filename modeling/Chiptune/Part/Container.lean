import Chiptune.Part
/-!
# The track container

A container is a header of ten bytes and the entries, with nothing after them:

    0  magic `BTRK`
    4  version, 1
    5  ticks
    6  instrument
    7  volume
    8  number of entries, low byte first
    10 entries

Bare entries without a header are a part too; their settings come from elsewhere. `Part.load` tells
the two apart by the magic.

A header is read field by field, and the reader of fields has faults of its own (`HeaderFault`). Data
that is too short for a header is refused before the reader sees it, so a fault of the reader that says
nothing about the container never comes up (`decode_ne_unreadable`).
-/
namespace Chiptune.Part

/-- The first bytes of a container. -/
def magic : Array UInt8 := #[0x42, 0x54, 0x52, 0x4B]

def version : UInt8 := 1

/-- Bytes before the entries, the magic among them. -/
def headerSize : Nat := 10

/-- The most entries a container can count. -/
def countLimit : Nat := 65535

/-- The data starts with the magic. -/
def hasMagic (data : Array UInt8) : Bool := magic.toList.isPrefixOf data.toList

/-! ## Headers -/

/-- The fields of a header behind the magic. -/
structure Header where
  version : UInt8
  settings : Settings
  count : UInt16
deriving DecidableEq

/-- Why no header can be read. -/
inductive HeaderFault where
  /-- Other bytes stand in the place of the magic. -/
  | badMagic
  /-- The data ends inside the header. -/
  | ended
deriving DecidableEq

def HeaderFault.message : HeaderFault → String
  | .badMagic => "bad magic"
  | .ended => "failed to fill whole buffer"

namespace Header

/-- The number of two bytes, low byte first. -/
def word (low high : UInt8) : UInt16 := .ofNat (low.toNat + 256 * high.toNat)

/-- The bytes of a header, magic and fields in order. -/
def toBytes (h : Header) : Array UInt8 :=
  magic ++ #[h.version, h.settings.ticks, h.settings.instrument, h.settings.volume,
    .ofNat (h.count.toNat % 256), .ofNat (h.count.toNat / 256)]

/-- The bytes behind the magic. -/
def takeMagic : List UInt8 → Except HeaderFault (List UInt8)
  | a :: b :: c :: d :: rest => if [a, b, c, d] = magic.toList then .ok rest else .error .badMagic
  | _ => .error .ended

/-- The next byte and the bytes behind it. -/
def takeByte : List UInt8 → Except HeaderFault (UInt8 × List UInt8)
  | [] => .error .ended
  | b :: rest => .ok (b, rest)

/-- The header that the bytes start with. -/
def read (bytes : List UInt8) : Except HeaderFault Header := do
  let rest ← takeMagic bytes
  let (version, rest) ← takeByte rest
  let (ticks, rest) ← takeByte rest
  let (instrument, rest) ← takeByte rest
  let (volume, rest) ← takeByte rest
  let (low, rest) ← takeByte rest
  let (high, _) ← takeByte rest
  return ⟨version, ⟨ticks, instrument, volume⟩, word low high⟩

/-- Ten bytes with the magic in front are a header, whatever follows them. -/
theorem read_cons (version ticks instrument volume low high : UInt8) (rest : List UInt8) :
    read (magic.toList ++ version :: ticks :: instrument :: volume :: low :: high :: rest) =
      .ok ⟨version, ⟨ticks, instrument, volume⟩, word low high⟩ := rfl

end Header

/-! ## Writing -/

/-- The header of a part, if its entries can be counted in two bytes. -/
def header? (p : Part) : Option Header :=
  if p.count ≤ countLimit then some ⟨version, p.settings, .ofNat p.count⟩ else none

def encode (p : Part) : Except LoadFault (Array UInt8) :=
  match p.header? with
  | some h => .ok (h.toBytes ++ p.data)
  | none => .error (.tooMany p.count)

/-! ## Reading -/

/-- Why data is no container: what is wrong with it, or that the reader of fields has given up. -/
inductive ContainerFault where
  | load (cause : LoadFault)
  | unreadable (cause : HeaderFault)
deriving DecidableEq

def ContainerFault.message : ContainerFault → String
  | .load cause => cause.message
  | .unreadable cause => s!"binary format error: {cause.message}"

/-- A fault of the reader: a bad magic is one of the container. -/
def ContainerFault.ofHeader : HeaderFault → ContainerFault
  | .badMagic => .load .badMagic
  | .ended => .unreadable .ended

/-- The part of a container with this header. It is reported when all its bytes are accounted for, and
made a part after that. -/
def unpack (data : Array UInt8) (h : Header) : Logged (Except LoadFault Part) :=
  let body := data.extract headerSize data.size
  let expected := h.count.toNat * Entry.size
  if h.version ≠ version then ⟨.error (.otherVersion h.version), []⟩
  else if h.count = 0 then ⟨.error .empty, []⟩
  else if body.size < expected then ⟨.error .cutShort, []⟩
  else if expected < body.size then ⟨.error (.trailing (body.size - expected)), []⟩
  else
    ⟨ofData h.settings body,
      [.containerLoaded h.count.toNat h.settings.ticks h.settings.instrument h.settings.volume]⟩

def decode (data : Array UInt8) : Logged (Except ContainerFault Part) :=
  if ¬ hasMagic data then ⟨.error (.load .badMagic), []⟩
  else if data.size < headerSize then ⟨.error (.load .cutShort), []⟩
  else
    match Header.read data.toList with
    | .error fault => ⟨.error (.ofHeader fault), []⟩
    | .ok h =>
      let r := unpack data h
      ⟨r.value.mapError .load, r.log⟩

/-- Data that starts with the magic and is long enough for a header has one. -/
theorem exists_read_eq_ok {data : Array UInt8} (hmagic : hasMagic data) (hsize : headerSize ≤ data.size) :
    ∃ h, Header.read data.toList = .ok h := by
  obtain ⟨rest, hrest⟩ := List.isPrefixOf_iff_prefix.1 hmagic
  have hlength : 6 ≤ rest.length := by
    have := congrArg List.length hrest
    simp only [magic, List.length_append, List.length_cons, List.length_nil, Array.length_toList] at this
    simp only [headerSize] at hsize
    omega
  rw [← hrest]
  match rest, hlength with
  | _ :: _ :: _ :: _ :: _ :: _ :: _, _ => exact ⟨_, Header.read_cons ..⟩

/-- **The reader of fields never gives up.** -/
theorem decode_ne_unreadable (data : Array UInt8) (cause : HeaderFault) :
    (decode data).value ≠ .error (.unreadable cause) := by
  unfold decode
  split
  · nofun
  · rename_i hmagic
    split
    · nofun
    · rename_i hsize
      obtain ⟨h, hread⟩ := exists_read_eq_ok (Decidable.not_not.1 hmagic) (Nat.not_lt.1 hsize)
      simp only [hread]
      cases (unpack data h).value <;> nofun

/-! ## Loading -/

/-- Reads a container and reports it. -/
def loadContainer (data : Array UInt8) : Logged (Except LoadFault Part) :=
  let r := decode data
  match h : r.value with
  | .ok p => ⟨.ok p, r.log⟩
  | .error (.load cause) => ⟨.error cause, r.log⟩
  | .error (.unreadable cause) => absurd h (decode_ne_unreadable data cause)

/-- Reads bare entries and reports them. -/
def loadBare (settings : Settings) (data : Array UInt8) : Logged (Except LoadFault Part) :=
  match ofData settings data with
  | .ok p => ⟨.ok p, [.bareLoaded p.count]⟩
  | .error e => ⟨.error e, []⟩

/-- Reads a container if the data starts like one, and bare entries with these settings
otherwise. -/
def load (settings : Settings) (data : Array UInt8) : Logged (Except LoadFault Part) :=
  if hasMagic data then loadContainer data else loadBare settings data

end Chiptune.Part
