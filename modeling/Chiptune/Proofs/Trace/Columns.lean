import Chiptune.Proofs.Playback
import Chiptune.Proofs.Text
import Chiptune.Proofs.Trace.Room
import Chiptune.Proofs.Track.Calls
/-!
# The columns of a trace

A number keeps to its column as long as it has no more digits than the column is wide (`length_decimalColumn`,
`length_hexZeros`). All numbers of a call in a trace do so but the tick: there are four tracks, words of 32 bits
have eight hexadecimal digits, and what a track plays has a volume of one byte and flags below 16
(`inColumns_of_mem_trace`). So a line is as long as the line of heads until its tick is wider than its column.

Main statement `columns_line_up`.
-/
namespace Chiptune

/-! ## The width of numerals -/

namespace Text

variable {width n : Nat}

theorem length_decimal_le_iff (hwidth : 0 < width) : (decimal n).length ≤ width ↔ n < 10 ^ width :=
  Nat.length_toDigits_le_iff (by decide) hwidth

theorem length_hex_le_iff (hwidth : 0 < width) : (hex n).length ≤ width ↔ n < 16 ^ width := by
  rw [hex, List.length_map]
  exact Nat.length_toDigits_le_iff (by decide) hwidth

theorem length_decimalColumn (width n : Nat) : (decimalColumn width n).length = max width (decimal n).length :=
  List.length_leftpad

theorem length_hexZeros (width n : Nat) : (hexZeros width n).length = max width (hex n).length :=
  List.length_leftpad

theorem length_decimalColumn_of_lt (hwidth : 0 < width) (h : n < 10 ^ width) :
    (decimalColumn width n).length = width := by
  rw [length_decimalColumn, Nat.max_eq_left ((length_decimal_le_iff hwidth).2 h)]

theorem length_hexZeros_of_lt (hwidth : 0 < width) (h : n < 16 ^ width) : (hexZeros width n).length = width := by
  rw [length_hexZeros, Nat.max_eq_left ((length_hex_le_iff hwidth).2 h)]

/-! ## Characters of one byte -/

/-- Each of the characters is one byte. -/
def IsAscii (cs : List Char) : Prop := ∀ c ∈ cs, c.utf8Size = 1

instance (cs : List Char) : Decidable (IsAscii cs) := List.decidableBAll (fun c : Char => c.utf8Size = 1) cs

theorem IsAscii.append {cs ds : List Char} (h : IsAscii cs) (h' : IsAscii ds) : IsAscii (cs ++ ds) := fun c hc =>
  (List.mem_append.1 hc).elim (h c) (h' c)

theorem IsAscii.leftpad {cs : List Char} (h : IsAscii cs) {c : Char} (hc : c.utf8Size = 1) (width : Nat) :
    IsAscii (cs.leftpad width c) :=
  .append (fun _ hd => List.eq_of_mem_replicate hd ▸ hc) h

theorem isAscii_decimal (n : Nat) : IsAscii (decimal n) := by
  intro c hc
  obtain ⟨-, hle⟩ := Char.isDigit_iff_toNat.1 (isDigit_of_mem_decimal hc)
  exact Char.utf8Size_eq_one_iff.2 (UInt32.le_iff_toNat_le.2 (Nat.le_trans hle (by decide)))

theorem isAscii_hex (n : Nat) : IsAscii (hex n) := by
  have hdigit : ∀ d < 16, IsAscii [(Nat.digitChar d).toUpper] := by decide
  exact hex_induction (motive := fun _ cs => IsAscii cs) hdigit (fun _ d hd ih => ih.append (hdigit d hd)) n

end Text

namespace Trace

open Text

theorem length_encode {cs : List Char} (h : IsAscii cs) : (encode cs).length = cs.length := by
  induction cs with
  | nil => rfl
  | cons c cs ih =>
    obtain ⟨hc, hcs⟩ := List.forall_mem_cons.1 h
    have hfirst : (encode [c]).length = c.utf8Size := by
      simp [encode, List.utf8Encode_singleton]
    rw [← List.singleton_append, encode_append, List.length_append, hfirst, hc, ih hcs, List.length_append,
      List.length_singleton]

/-! ## The width of a line -/

/-- The widths of the pieces of a line: columns and the blanks between them. -/
def Event.widths (e : Event) : List Nat := e.pieces.map List.length

variable {e : Event}

theorem length_line (e : Event) : e.line.length = e.widths.sum := by
  rw [Event.line, String.length_ofList, List.length_flatten, Event.widths]

theorem length_wordText (w : UInt32) : (wordText 8 w).length = 10 := by
  rw [wordText, List.length_append, length_hexZeros_of_lt (by decide) w.toNat_lt]
  rfl

theorem length_wordText_of_lt {w : UInt32} (h : w.toNat < 16) : (wordText 2 w).length = 4 := by
  rw [wordText, List.length_append, length_hexZeros_of_lt (by decide) (by omega)]
  rfl

/-- All numbers but the tick keep to their columns. -/
structure Event.InColumns (e : Event) : Prop where
  track_lt : e.track < 4
  volume_le : e.call.volume.toNat ≤ 255
  flags_lt : e.call.flags.toNat < 16

theorem Event.InColumns.widths_eq (h : e.InColumns) :
    e.widths = [max 8 (decimal e.tick).length, 1, 5, 2, 10, 1, 10, 1, 3, 1, 4] := by
  have htrack : (decimalColumn 5 e.track).length = 5 := by
    have := h.track_lt
    exact length_decimalColumn_of_lt (by decide) (by omega)
  have hvolume : (decimalColumn 3 e.call.volume.toNat).length = 3 := by
    have := h.volume_le
    exact length_decimalColumn_of_lt (by decide) (by omega)
  simp only [Event.widths, Event.pieces, List.map_cons, List.map_nil, length_decimalColumn 8, htrack, hvolume,
    length_wordText, length_wordText_of_lt h.flags_lt]
  rfl

theorem Event.InColumns.length_line_eq (h : e.InColumns) :
    e.line.length = header.length + ((decimal e.tick).length - 8) := by
  have hheader : header.length = 46 := rfl
  rw [length_line, h.widths_eq, hheader]
  simp only [List.sum_cons, List.sum_nil]
  omega

/-- No character of a line is wider than a byte. -/
theorem isAscii_line (e : Event) : IsAscii e.line.toList := by
  have hdecimal (width n : Nat) : IsAscii (decimalColumn width n) := (isAscii_decimal n).leftpad rfl width
  have hword (width : Nat) (w : UInt32) : IsAscii (wordText width w) :=
    .append (by decide) ((isAscii_hex w.toNat).leftpad rfl width)
  have hpieces : ∀ piece ∈ e.pieces, IsAscii piece := by
    simp only [Event.pieces, List.forall_mem_cons, List.not_mem_nil, false_implies, implies_true, and_true]
    exact ⟨hdecimal _ _, by decide, hdecimal _ _, by decide, hword _ _, by decide, hword _ _, by decide,
      hdecimal _ _, by decide, hword _ _⟩
  intro c hc
  rw [Event.line, String.toList_ofList] at hc
  obtain ⟨piece, hpiece, hc⟩ := List.mem_flatten.1 hc
  exact hpieces piece hpiece c hc

end Trace

/-! ## The lines of a trace -/

namespace Player

open Trace

variable {p : Player} {n : Nat} {e : Trace.Event}

/-- What a player plays keeps to its columns. -/
theorem inColumns_of_mem_trace (h : e ∈ (p.trace n).value) : e.InColumns := by
  obtain ⟨-, part, tone, hpart, hplayed, hcall⟩ := mem_trace.1 h
  have hcarries := carries_of_decodes (Track.decodes_of_played hplayed).2
  rw [hcall] at hcarries
  exact ⟨Nat.lt_of_lt_of_le (List.getElem?_eq_some_iff.1 hpart).1 p.fits, hcarries.volume_le, hcarries.flags_lt⟩

/-- **The columns of a trace line up.** In every trace of every player the line of a call is as long as the line
of heads if its tick has at most eight digits, and longer by the further digits if it has more. All other columns
have their width in every line, whatever the configuration, the parts and the ticks. Each character of a line is
one byte, so that all of this holds of bytes as well. -/
theorem columns_line_up (p : Player) (n : Nat) : ∀ e ∈ (p.trace n).value,
    (e.line.length = header.length ↔ e.tick < 10 ^ 8) ∧
    (10 ^ 8 ≤ e.tick → header.length < e.line.length) ∧
    e.widths = [max 8 (Text.decimal e.tick).length, 1, 5, 2, 10, 1, 10, 1, 3, 1, 4] ∧
    e.line.length = header.length + ((Text.decimal e.tick).length - 8) ∧
    (encode e.line.toList).length = e.line.length := by
  intro e he
  have hcolumns := inColumns_of_mem_trace he
  have hlength := hcolumns.length_line_eq
  have hdigits : (Text.decimal e.tick).length ≤ 8 ↔ e.tick < 10 ^ 8 := Text.length_decimal_le_iff (by decide)
  refine ⟨by omega, by omega, hcolumns.widths_eq, hlength, ?_⟩
  rw [length_encode (isAscii_line e), String.length_toList]

/-- A part of one note that sounds in every tick: its call in tick 0 is in line with the heads, and the one in tick
100000000 is a digit longer. -/
theorem columns_line_up_nine_digits :
    let part : Part := ⟨{ volume := 255 }, #[33, 0, 0], by decide, by decide⟩
    let p : Player := { config := {}, bank := .reference, parts := [part], accepted := rfl }
    let call : HostCall := ⟨440, 0, 255, 2⟩
    let first : Trace.Event := ⟨0, 0, call⟩
    let late : Trace.Event := ⟨10 ^ 8, 0, call⟩
    first ∈ (p.trace (10 ^ 8 + 1)).value ∧ first.line.length = header.length ∧
      late ∈ (p.trace (10 ^ 8 + 1)).value ∧ late.line.length = header.length + 1 := by
  intro part p call first late
  have hstay (n : Nat) : part.track.after .reference n = part.track := by
    induction n with
    | zero => rfl
    | succ n ih =>
      rw [Track.after_succ, ih]
      exact Track.ext rfl rfl rfl (by decide) (by decide)
  have hplayed : ∃ tone, (part.track.tick .reference).outcome = .played tone ∧ tone.pack = call :=
    ⟨part.track.tone .reference ⟨33, 0, 0⟩ 440, by decide, by decide⟩
  have hmem (tick : Nat) (h : tick ≤ 10 ^ 8) : ⟨tick, 0, call⟩ ∈ (p.trace (10 ^ 8 + 1)).value := by
    obtain ⟨tone, hplayed, hcall⟩ := hplayed
    rw [← hstay tick] at hplayed
    exact mem_trace.2 ⟨Nat.lt_succ_of_le h, part, tone, rfl, hplayed, hcall⟩
  have hfirst := hmem 0 (by decide)
  have hlate := hmem (10 ^ 8) (Nat.le_refl _)
  refine ⟨hfirst, (columns_line_up p _ first hfirst).1.2 (by decide), hlate, ?_⟩
  have hdigits : (Text.decimal late.tick).length = 9 := by decide
  obtain ⟨-, -, -, hlength, -⟩ := columns_line_up p _ late hlate
  rwa [hdigits] at hlength

end Player

end Chiptune
