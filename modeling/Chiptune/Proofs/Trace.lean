import Chiptune.Trace
import Chiptune.Proofs.Text
/-!
# The text of a trace

The text comes in two ways: in the pieces of which it is made, and as a line of heads with a line for each call
(`join_pieces`, `text_eq_unlines`). Each line tells its call, however wide the numbers are (`read?_line`), so the
text tells the whole trace.

Main statement `text_reads_back`.
-/
namespace Chiptune.Trace

open Text

/-! ## Pieces and lines -/

/-- The text is that of its pieces. -/
theorem join_pieces (events : List Event) :
    String.join ((pieces events).map String.ofList) = text events := by
  rw [← String.toList_inj, String.toList_join, text, String.toList_ofList, List.flatMap_map]
  simp only [String.toList_ofList]
  exact List.flatMap_id

/-- The text is the line of heads and a line for each call. -/
theorem text_eq_unlines (events : List Event) : text events = unlines (header :: events.map Event.line) := by
  have hlines : (events.flatMap fun e => e.pieces ++ [['\n']]).flatten =
      events.flatMap fun e => (e.line ++ "\n").toList := by
    induction events with
    | nil => rfl
    | cons e events ih =>
      rw [List.flatMap_cons, List.flatten_append, ih, List.flatMap_cons]
      simp [Event.line]
  rw [← String.toList_inj, text, String.toList_ofList, pieces, List.flatten_cons, List.flatten_cons, hlines]
  simp [unlines, List.flatMap_map]

/-! ## One line -/

/-- The word with this number, if it fits. -/
def word? : Nat → Option UInt32 := below? UInt32.size UInt32.ofNat

/-- The word that is written in hexadecimal after `0x`. -/
def hexWord? : List Char → Option UInt32
  | '0' :: 'x' :: digits => (hexadecimal? digits).bind word?
  | _ => none

/-- The call that a line tells: tick and track, and the words of the call. -/
def Event.read? (line : String) : Option Event :=
  match fields line.toList with
  | [tick, track, frequency, envelope, volume, flags] => do
    return {
      tick := ← natural? tick
      track := ← natural? track
      call := {
        frequency := ← hexWord? frequency
        envelope := ← hexWord? envelope
        volume := ← (natural? volume).bind word?
        flags := ← hexWord? flags } }
  | _ => none

theorem word?_toNat (w : UInt32) : word? w.toNat = some w := by
  rw [word?, below?_of_lt w.toNat_lt_size, UInt32.ofNat_toNat]

theorem hexWord?_wordText (width : Nat) (w : UInt32) : hexWord? (wordText width w) = some w := by
  have hread : hexWord? (wordText width w) = (hexadecimal? (hexZeros width w.toNat)).bind word? := rfl
  rw [hread, hexadecimal?_hexZeros, Option.bind_some, word?_toNat]

theorem isField_wordText (width : Nat) (w : UInt32) : IsField (wordText width w) :=
  .append (by simp) (isField_hexZeros width w.toNat)

/-- **A line has its six fields**, however wide each of them is. -/
theorem fields_line (e : Event) :
    fields e.line.toList = [decimal e.tick, decimal e.track, wordText 8 e.call.frequency,
      wordText 8 e.call.envelope, decimal e.call.volume.toNat, wordText 2 e.call.flags] := by
  have hline : e.line.toList =
      decimalColumn 8 e.tick ++ ' ' :: (decimalColumn 5 e.track ++ ' ' :: ' ' ::
        (wordText 8 e.call.frequency ++ ' ' :: (wordText 8 e.call.envelope ++ ' ' ::
          (decimalColumn 3 e.call.volume.toNat ++ ' ' :: wordText 2 e.call.flags)))) := by
    simp [Event.line, Event.pieces]
  rw [hline, fields_decimalColumn, fields_append (isField_decimal _), fields_decimalColumn,
    fields_append (isField_decimal _), fields_blank, fields_append (isField_wordText 8 _),
    fields_append (isField_wordText 8 _), fields_decimalColumn, fields_append (isField_decimal _),
    fields_of_isField (isField_wordText 2 _)]

/-- **A line tells its call.** -/
theorem read?_line (e : Event) : Event.read? e.line = some e := by
  simp [Event.read?, fields_line, natural?_decimal, hexWord?_wordText, word?_toNat]

/-! ## The whole text -/

/-- The trace that a text tells, behind the line of heads. -/
def read? (text : String) : Option (List Event) :=
  match lines text with
  | head :: rest => if head = header then rest.mapM Event.read? else none
  | [] => none

theorem newline_not_mem_line (e : Event) : '\n' ∉ e.line.toList := by
  have hword (width : Nat) (w : UInt32) := (isField_wordText width w).newline_not_mem
  simp [Event.line, Event.pieces, newline_not_mem_decimalColumn, hword]

theorem lines_text (events : List Event) : lines (text events) = header :: events.map Event.line := by
  rw [text_eq_unlines, lines_unlines]
  refine List.forall_mem_cons.2 ⟨by decide, List.forall_mem_map.2 fun e _ => newline_not_mem_line e⟩

theorem read?_text (events : List Event) : read? (text events) = some events := by
  have hrows : (events.map Event.line).mapM Event.read? = some events := by
    induction events with
    | nil => rfl
    | cons e events ih => simp [read?_line, ih]
  rw [read?, lines_text]
  exact (if_pos rfl).trans hrows

/-- **The text of a trace loses nothing.** It is the line of heads and after it a line for each call, in order,
each ended by a newline. Each line tells its call in six fields, so the text tells the trace, and no two traces
have the same text. -/
theorem text_reads_back :
    (∀ events, text events = unlines (header :: events.map Event.line)) ∧
    (∀ events, lines (text events) = header :: events.map Event.line) ∧
    (∀ e : Event, Event.read? e.line = some e) ∧
    (∀ events, read? (text events) = some events) ∧
    Function.Injective text := by
  refine ⟨text_eq_unlines, lines_text, read?_line, read?_text, fun a b h => ?_⟩
  have hread : some a = some b := by rw [← read?_text a, h, read?_text]
  exact Option.some.inj hread

end Chiptune.Trace
