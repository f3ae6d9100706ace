import Mathlib.Data.Nat.Bitwise
import Mathlib.Tactic.Common
import Chiptune.Tone
/-!
# The places of the fields

Each field of a tone has its place in a host call: a word, a shift and a width. A bit of a word is set where a
field of this word has it, its shift lower (`bit_pack`), so two tones differ in a bit of their calls only if a
field differs there (`bit_pack_congr`). Places do not overlap (`Field.apart`); a tone whose fields keep to their
widths is read back from its call (`unpack_pack`).

Main statement `pack_places_fields`.
-/
namespace Chiptune

/-! ## Bits of a word -/

/-- Bit `k` of a word, the lowest one being bit 0. -/
def bit (w : UInt32) (k : Nat) : Bool := w.toNat.testBit k

section
variable {v w s : UInt32} {k n : Nat}

theorem bit_or : bit (v ||| w) k = (bit v k || bit w k) := by
  rw [bit, UInt32.toNat_or, Nat.testBit_or, bit, bit]

theorem bit_and : bit (v &&& w) k = (bit v k && bit w k) := by
  rw [bit, UInt32.toNat_and, Nat.testBit_and, bit, bit]

/-- A shift to the left loses the bits that it takes past the word. -/
theorem bit_shiftLeft (hs : s.toNat < 32) (hk : k < 32) :
    bit (w <<< s) k = (decide (s.toNat ≤ k) && bit w (k - s.toNat)) := by
  rw [bit, UInt32.toNat_shiftLeft, Nat.mod_eq_of_lt hs, Nat.testBit_mod_two_pow, Nat.testBit_shiftLeft, bit]
  simp [hk]

theorem bit_shiftRight (hs : s.toNat < 32) : bit (w >>> s) k = bit w (s.toNat + k) := by
  rw [bit, UInt32.toNat_shiftRight, Nat.mod_eq_of_lt hs, Nat.testBit_shiftRight, bit]

/-- A word below `2 ^ n` has its bits below bit `n`. -/
theorem bit_eq_false (hw : w.toNat < 2 ^ n) (hk : n ≤ k) : bit w k = false :=
  Nat.testBit_lt_two_pow (Nat.lt_of_lt_of_le hw (Nat.pow_le_pow_right Nat.two_pos hk))

theorem eq_of_bit_eq (h : ∀ k < 32, bit v k = bit w k) : v = w := by
  apply UInt32.toNat_inj.1
  apply Nat.eq_of_testBit_eq
  intro k
  by_cases hk : k < 32
  · exact h k hk
  · have hv : bit v k = false := bit_eq_false v.toNat_lt (Nat.le_of_not_lt hk)
    have hw : bit w k = false := bit_eq_false w.toNat_lt (Nat.le_of_not_lt hk)
    exact hv.trans hw.symm

end

/-! ## Fields -/

/-- The words of a host call by name. -/
inductive Word where
  | frequency
  | envelope
  | volume
  | flags
deriving DecidableEq

def HostCall.word (c : HostCall) : Word → UInt32
  | .frequency => c.frequency
  | .envelope => c.envelope
  | .volume => c.volume
  | .flags => c.flags

/-- The fields of a tone by name. -/
inductive Field where
  | frequency
  | slideTo
  | attack
  | decay
  | sustain
  | release
  | volume
  | channel
  | mode
deriving DecidableEq

namespace Field

/-- The word that a field is part of. -/
def word : Field → Word
  | frequency | slideTo => .frequency
  | attack | decay | sustain | release => .envelope
  | volume => .volume
  | channel | mode => .flags

/-- The bit of the word that the lowest bit of a field is at. -/
def shift : Field → UInt32
  | frequency | sustain | volume | channel => 0
  | slideTo => slideShift
  | attack => attackShift
  | decay => decayShift
  | release => releaseShift
  | mode => modeShift

/-- The bits that a field has room for. -/
def width : Field → Nat
  | frequency | slideTo => 16
  | attack | decay | sustain | release => 8
  | volume => 32
  | channel | mode => 2

def get (t : Tone) : Field → UInt32
  | frequency => t.frequency
  | slideTo => t.slideTo
  | attack => t.attack
  | decay => t.decay
  | sustain => t.sustain
  | release => t.release
  | volume => t.volume
  | channel => t.channel
  | mode => t.mode

/-- The tone with one field changed. -/
def set (t : Tone) (value : UInt32) : Field → Tone
  | frequency => { t with frequency := value }
  | slideTo => { t with slideTo := value }
  | attack => { t with attack := value }
  | decay => { t with decay := value }
  | sustain => { t with sustain := value }
  | release => { t with release := value }
  | volume => { t with volume := value }
  | channel => { t with channel := value }
  | mode => { t with mode := value }

def mask (f : Field) : UInt32 := .ofNat (2 ^ f.width - 1)

/-- A field as it stands in a call: its word, shifted and masked. -/
def read (c : HostCall) (f : Field) : UInt32 := c.word f.word >>> f.shift &&& f.mask

variable {f g : Field} {t u : Tone} {k : Nat}

theorem shift_add_width_le (f : Field) : f.shift.toNat + f.width ≤ 32 := by
  cases f <;> decide

theorem shift_lt (f : Field) : f.shift.toNat < 32 := by
  cases f <;> decide

/-- **Two fields of one word do not overlap.** -/
theorem apart (hword : f.word = g.word) (hne : f ≠ g) :
    f.shift.toNat + f.width ≤ g.shift.toNat ∨ g.shift.toNat + g.width ≤ f.shift.toNat := by
  revert hword hne
  cases f <;> cases g <;> decide

theorem get_set (t : Tone) (value : UInt32) (f g : Field) :
    g.get (f.set t value) = if g = f then value else g.get t := by
  cases f <;> cases g <;> rfl

theorem eq_of_get_eq (h : ∀ f : Field, f.get t = f.get u) : t = u := by
  cases t
  cases u
  rw [Tone.mk.injEq]
  exact ⟨h .frequency, h .slideTo, h .attack, h .decay, h .sustain, h .release, h .volume, h .channel, h .mode⟩

theorem bit_mask (f : Field) (k : Nat) : bit f.mask k = decide (k < f.width) := by
  have htoNat : f.mask.toNat = 2 ^ f.width - 1 := by cases f <;> rfl
  rw [bit, htoNat, Nat.testBit_two_pow_sub_one]

theorem bit_read (c : HostCall) (f : Field) (k : Nat) :
    bit (f.read c) k = (bit (c.word f.word) (f.shift.toNat + k) && decide (k < f.width)) := by
  rw [read, bit_and, bit_shiftRight f.shift_lt, bit_mask]

end Field

/-! ## Packing -/

section
variable {t u : Tone} {k : Nat}

theorem bit_frequency_pack (hk : k < 32) :
    bit t.pack.frequency k ↔ bit t.frequency k ∨ 16 ≤ k ∧ bit t.slideTo (k - 16) := by
  have hslideTo := @bit_shiftLeft t.slideTo slideShift k (by decide) hk
  simp only [Tone.pack, bit_or, hslideTo, Bool.or_eq_true, Bool.and_eq_true, decide_eq_true_eq]
  rfl

theorem bit_envelope_pack (hk : k < 32) :
    bit t.pack.envelope k ↔ bit t.sustain k ∨ 8 ≤ k ∧ bit t.release (k - 8) ∨
      16 ≤ k ∧ bit t.decay (k - 16) ∨ 24 ≤ k ∧ bit t.attack (k - 24) := by
  have hattack := @bit_shiftLeft t.attack attackShift k (by decide) hk
  have hdecay := @bit_shiftLeft t.decay decayShift k (by decide) hk
  have hrelease := @bit_shiftLeft t.release releaseShift k (by decide) hk
  simp only [Tone.pack, bit_or, hattack, hdecay, hrelease, Bool.or_eq_true, Bool.and_eq_true, decide_eq_true_eq]
  constructor
  · rintro (((h | h) | h) | h)
    · exact .inr (.inr (.inr h))
    · exact .inr (.inr (.inl h))
    · exact .inl h
    · exact .inr (.inl h)
  · rintro (h | h | h | h)
    · exact .inl (.inr h)
    · exact .inr h
    · exact .inl (.inl (.inr h))
    · exact .inl (.inl (.inl h))

theorem bit_flags_pack (hk : k < 32) :
    bit t.pack.flags k ↔ bit t.channel k ∨ 2 ≤ k ∧ bit t.mode (k - 2) := by
  have hmode := @bit_shiftLeft t.mode modeShift k (by decide) hk
  simp only [Tone.pack, bit_or, hmode, Bool.or_eq_true, Bool.and_eq_true, decide_eq_true_eq]
  rfl

/-- **A bit of a word is set where one of the fields of this word has it.** -/
theorem bit_pack (hk : k < 32) (t : Tone) (w : Word) :
    bit (t.pack.word w) k ↔
      ∃ f : Field, f.word = w ∧ f.shift.toNat ≤ k ∧ bit (f.get t) (k - f.shift.toNat) := by
  cases w with
  | frequency =>
    refine (bit_frequency_pack hk).trans ⟨?_, ?_⟩
    · rintro (h | h)
      · exact ⟨.frequency, rfl, Nat.zero_le k, h⟩
      · exact ⟨.slideTo, rfl, h⟩
    · rintro ⟨f, hword, h⟩
      cases f <;> cases hword
      · exact .inl h.2
      · exact .inr h
  | envelope =>
    refine (bit_envelope_pack hk).trans ⟨?_, ?_⟩
    · rintro (h | h | h | h)
      · exact ⟨.sustain, rfl, Nat.zero_le k, h⟩
      · exact ⟨.release, rfl, h⟩
      · exact ⟨.decay, rfl, h⟩
      · exact ⟨.attack, rfl, h⟩
    · rintro ⟨f, hword, h⟩
      cases f <;> cases hword
      · exact .inr (.inr (.inr h))
      · exact .inr (.inr (.inl h))
      · exact .inl h.2
      · exact .inr (.inl h)
  | volume =>
    constructor
    · intro h
      exact ⟨.volume, rfl, Nat.zero_le k, h⟩
    · rintro ⟨f, hword, h⟩
      cases f <;> cases hword
      exact h.2
  | flags =>
    refine (bit_flags_pack hk).trans ⟨?_, ?_⟩
    · rintro (h | h)
      · exact ⟨.channel, rfl, Nat.zero_le k, h⟩
      · exact ⟨.mode, rfl, h⟩
    · rintro ⟨f, hword, h⟩
      cases f <;> cases hword
      · exact .inl h.2
      · exact .inr h

/-- A bit of a word hangs on one bit of each of its fields, and on no lower one. -/
theorem bit_pack_congr {w : Word} (h : ∀ f : Field, f.word = w → f.shift.toNat ≤ k →
      bit (f.get t) (k - f.shift.toNat) = bit (f.get u) (k - f.shift.toNat)) :
    bit (t.pack.word w) k = bit (u.pack.word w) k := by
  by_cases hk : k < 32
  · rw [Bool.eq_iff_iff, bit_pack hk, bit_pack hk]
    refine exists_congr fun f => and_congr_right fun hword => and_congr_right fun hle => ?_
    rw [h f hword hle]
  · have hle : 32 ≤ k := Nat.le_of_not_lt hk
    rw [bit_eq_false (UInt32.toNat_lt _) hle, bit_eq_false (UInt32.toNat_lt _) hle]

end

/-! ## Reading back -/

/-- Every field keeps to its width. -/
structure Tone.Fits (t : Tone) : Prop where
  frequency : t.frequency < 0x10000
  slideTo : t.slideTo < 0x10000
  attack : t.attack < 0x100
  decay : t.decay < 0x100
  sustain : t.sustain < 0x100
  release : t.release < 0x100
  channel : t.channel < 4
  mode : t.mode < 4

theorem Tone.Fits.get_lt {t : Tone} (h : t.Fits) (f : Field) : (f.get t).toNat < 2 ^ f.width := by
  cases f with
  | frequency => exact UInt32.lt_iff_toNat_lt.1 h.frequency
  | slideTo => exact UInt32.lt_iff_toNat_lt.1 h.slideTo
  | attack => exact UInt32.lt_iff_toNat_lt.1 h.attack
  | decay => exact UInt32.lt_iff_toNat_lt.1 h.decay
  | sustain => exact UInt32.lt_iff_toNat_lt.1 h.sustain
  | release => exact UInt32.lt_iff_toNat_lt.1 h.release
  | volume => exact t.volume.toNat_lt
  | channel => exact UInt32.lt_iff_toNat_lt.1 h.channel
  | mode => exact UInt32.lt_iff_toNat_lt.1 h.mode

/-- The tone that a call requests, field by field. -/
def HostCall.unpack (c : HostCall) : Tone where
  frequency := c.frequency &&& 0xFFFF
  slideTo := c.frequency >>> slideShift &&& 0xFFFF
  attack := c.envelope >>> attackShift &&& 0xFF
  decay := c.envelope >>> decayShift &&& 0xFF
  sustain := c.envelope &&& 0xFF
  release := c.envelope >>> releaseShift &&& 0xFF
  volume := c.volume
  channel := c.flags &&& 3
  mode := c.flags >>> modeShift &&& 3

theorem get_unpack (c : HostCall) (f : Field) : f.get c.unpack = f.read c := by
  -- No shift and a mask of all bits leave a word as it is.
  have hzero (w : UInt32) : w >>> 0 = w := UInt32.shiftRight_zero
  have hall (w : UInt32) : w &&& 0xFFFFFFFF = w := UInt32.and_neg_one
  cases f <;> simp only [Field.read, Field.shift, hzero] <;> first | rfl | exact (hall c.volume).symm

/-- **A field that keeps to its width is read back**, if the fields below it in its word do so as well. -/
theorem read_pack {t : Tone} {f : Field}
    (h : ∀ g : Field, g.word = f.word → g.shift.toNat ≤ f.shift.toNat → (g.get t).toNat < 2 ^ g.width) :
    f.read t.pack = f.get t := by
  have hf : (f.get t).toNat < 2 ^ f.width := h f rfl (Nat.le_refl _)
  have hroom := f.shift_add_width_le
  apply eq_of_bit_eq
  intro k _
  rw [Field.bit_read, Bool.eq_iff_iff, Bool.and_eq_true, decide_eq_true_eq]
  constructor
  · rintro ⟨hbit, hk⟩
    obtain ⟨g, hword, hle, hg⟩ := (bit_pack (by omega) t f.word).1 hbit
    by_cases hgf : g = f
    · subst hgf
      rwa [Nat.add_sub_cancel_left] at hg
    · rcases Field.apart hword hgf with hbelow | habove
      · -- The place of `g` ends below that of `f`, so this bit is past the width of `g`.
        rw [bit_eq_false (h g hword (by omega)) (by omega)] at hg
        cases hg
      · omega
  · intro hbit
    have hk : k < f.width := by
      by_contra hk
      rw [bit_eq_false hf (Nat.le_of_not_lt hk)] at hbit
      cases hbit
    refine ⟨(bit_pack (by omega) t f.word).2 ⟨f, rfl, Nat.le_add_right _ _, ?_⟩, hk⟩
    rwa [Nat.add_sub_cancel_left]

theorem unpack_pack {t : Tone} (h : t.Fits) : t.pack.unpack = t := by
  apply Field.eq_of_get_eq
  intro f
  rw [get_unpack, read_pack fun g _ _ => h.get_lt g]

/-- **Packing puts each field at its place.** Bit `k` of a word is set where a field of it has bit `k` less the
shift of the field, and the volume is a word of its own. If no field is wider than its place then shifts and
masks give all of them back, so that such tones have different calls if they are different. A field that is
changed, however wide, changes only bits of its word that its own bits come to, and none below its shift:
nothing is carried. -/
theorem pack_places_fields :
    (∀ (t : Tone) (k : Nat), k < 32 →
      (bit t.pack.frequency k ↔ bit t.frequency k ∨ 16 ≤ k ∧ bit t.slideTo (k - 16)) ∧
      (bit t.pack.envelope k ↔ bit t.sustain k ∨ 8 ≤ k ∧ bit t.release (k - 8) ∨
        16 ≤ k ∧ bit t.decay (k - 16) ∨ 24 ≤ k ∧ bit t.attack (k - 24)) ∧
      (bit t.pack.flags k ↔ bit t.channel k ∨ 2 ≤ k ∧ bit t.mode (k - 2))) ∧
    (∀ t : Tone, t.pack.volume = t.volume) ∧
    (∀ t : Tone, t.Fits → t.pack.unpack = t) ∧
    (∀ t u : Tone, t.Fits → u.Fits → t.pack = u.pack → t = u) ∧
    ∀ (t : Tone) (f : Field) (value : UInt32) (w : Word) (k : Nat),
      bit ((f.set t value).pack.word w) k ≠ bit (t.pack.word w) k →
        w = f.word ∧ f.shift.toNat ≤ k ∧
          bit value (k - f.shift.toNat) ≠ bit (f.get t) (k - f.shift.toNat) := by
  refine ⟨fun t k hk => ⟨bit_frequency_pack hk, bit_envelope_pack hk, bit_flags_pack hk⟩, fun t => rfl,
    fun t => unpack_pack, ?_, ?_⟩
  · intro t u ht hu heq
    rw [← unpack_pack ht, heq, unpack_pack hu]
  · intro t f value w k hne
    by_contra hsame
    refine hne (bit_pack_congr fun g hword hle => ?_)
    rw [Field.get_set]
    by_cases hgf : g = f
    · subst hgf
      rw [if_pos rfl]
      by_contra hbit
      exact hsame ⟨hword.symm, hle, hbit⟩
    · rw [if_neg hgf]

/-- A slide with an envelope on the second pulse channel, packed and read back; in another mode its call is
another one. Then a sustain of nine bits, which reaches into the release. -/
theorem pack_places_fields_slide :
    let t : Tone := ⟨440, 523, 1, 2, 3, 4, 100, 1, 2⟩
    let other : Tone := Field.mode.set t 3
    let wide : Tone := Field.sustain.set t 0x103
    t.pack = ⟨440 + 523 * 0x10000, 0x01020403, 100, 9⟩ ∧ t.pack.unpack = t ∧ t.pack ≠ other.pack ∧
      (bit t.pack.envelope 24 ↔ bit t.sustain 24 ∨ 8 ≤ 24 ∧ bit t.release 16 ∨
        16 ≤ 24 ∧ bit t.decay 8 ∨ 24 ≤ 24 ∧ bit t.attack 0) ∧
      wide.pack.envelope = 0x01020503 ∧ Field.sustain.shift.toNat ≤ 8 ∧ bit 0x103 8 ≠ bit t.sustain 8 := by
  intro t other wide
  obtain ⟨hlayout, -, hread, hequal, hchange⟩ := pack_places_fields
  have hfits : t.Fits := by constructor <;> decide
  have hother : other.Fits := by constructor <;> decide
  have hne : t.pack ≠ other.pack := fun h => absurd (hequal t other hfits hother h) (by decide)
  obtain ⟨-, hle, hbit⟩ := hchange t .sustain 0x103 .envelope 8 (by decide)
  exact ⟨by decide, hread t hfits, hne, (hlayout t 24 (by decide)).2.1, by decide, hle, hbit⟩

end Chiptune
