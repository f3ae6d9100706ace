import Mathlib.Tactic.Common
import Chiptune.Trace
/-!
# A trace in bounded room

Pieces that are written one after the other end up as the same bytes written in one piece would
(`writeAll_eq_write`). So the way in which a text is cut into pieces has no part in what is stored of it, and
nothing is stored after the first piece that does not fit (`writeAll_append`).

Main statement `write_keeps_prefix`.
-/
namespace Chiptune

namespace Buffer

variable {b : Buffer} {piece : List UInt8}

theorem writeAll_of_fits (h : piece.length ≤ b.room) (rest : List (List UInt8)) :
    b.writeAll (piece :: rest) = writeAll (b.write piece).1 rest := by
  simp [writeAll, write, h]

theorem writeAll_of_full (h : b.room < piece.length) (rest : List (List UInt8)) :
    b.writeAll (piece :: rest) = b.write piece := by
  simp [writeAll, write, Nat.not_le_of_lt h]

/-- What fits is stored as a whole, and bytes after it as far as there is room left. -/
theorem write_append_of_fits (h : piece.length ≤ b.room) (more : List UInt8) :
    b.write (piece ++ more) = (b.write piece).1.write more := by
  simp only [write, List.length_append, List.take_append, List.append_assoc, List.take_of_length_le h, Prod.mk.injEq,
    Buffer.mk.injEq, true_and, decide_eq_decide]
  omega

/-- Bytes after a piece that does not fit are not stored. -/
theorem write_append_of_full (h : b.room < piece.length) (more : List UInt8) :
    b.write (piece ++ more) = b.write piece := by
  simp only [write, List.length_append, List.take_append_of_le_length (Nat.le_of_lt h), Prod.mk.injEq, Buffer.mk.injEq,
    true_and, decide_eq_decide]
  omega

/-- **Writing in pieces is writing at once.** -/
theorem writeAll_eq_write (b : Buffer) (pieces : List (List UInt8)) : b.writeAll pieces = b.write pieces.flatten := by
  induction pieces generalizing b with
  | nil => simp [writeAll, write]
  | cons piece rest ih =>
    rw [List.flatten_cons]
    rcases Nat.lt_or_ge b.room piece.length with h | h
    · rw [writeAll_of_full h, write_append_of_full h]
    · rw [writeAll_of_fits h, write_append_of_fits h, ih]

/-- **After a piece that does not fit nothing more is stored.** -/
theorem writeAll_append {pieces : List (List UInt8)} (h : (b.writeAll pieces).2 = false) (rest : List (List UInt8)) :
    b.writeAll (pieces ++ rest) = b.writeAll pieces := by
  have hfull : b.room < pieces.flatten.length := by
    rw [writeAll_eq_write] at h
    exact Nat.lt_of_not_le (of_decide_eq_false h)
  rw [writeAll_eq_write, List.flatten_append, write_append_of_full hfull, writeAll_eq_write]

end Buffer

namespace Trace

theorem encode_append (cs ds : List Char) : encode (cs ++ ds) = encode cs ++ encode ds := by
  simp [encode, String.toByteArray_ofList]

/-- The pieces of a text are cut from its bytes. -/
theorem flatten_encode (pieces : List (List Char)) : (pieces.map encode).flatten = encode pieces.flatten := by
  induction pieces with
  | nil => rfl
  | cons piece rest ih => rw [List.map_cons, List.flatten_cons, ih, List.flatten_cons, encode_append]

theorem write_eq (room : Nat) (events : List Event) :
    write room events = Buffer.write ⟨[], room⟩ (text events).toUTF8.data.toList := by
  rw [write, Buffer.writeAll_eq_write, flatten_encode]
  rfl

/-- **Bounded room holds a prefix of the text.** A trace that is written into some room leaves the first bytes of
its text there, as many as there is room for, and the writing succeeds exactly if that is all of them. However
the text is cut into pieces, the outcome is the same; and once a piece has not fitted, the pieces after it leave
everything as it is. -/
theorem write_keeps_prefix (events : List Event) (room : Nat) :
    let bytes := (text events).toUTF8.data.toList
    (write room events).1.written = bytes.take (min room bytes.length) ∧
    ((write room events).2 = true ↔ bytes.length ≤ room) ∧
    ∀ cut : List (List UInt8), cut.flatten = bytes →
      Buffer.writeAll ⟨[], room⟩ cut = write room events ∧
      ∀ done rest, cut = done ++ rest → (Buffer.writeAll ⟨[], room⟩ done).2 = false →
        Buffer.writeAll ⟨[], room⟩ done = write room events := by
  intro bytes
  have hwrite : write room events = Buffer.write ⟨[], room⟩ bytes := write_eq room events
  refine ⟨?_, ?_, fun cut hcut => ?_⟩
  · rw [hwrite]
    simp only [Buffer.write, List.nil_append, List.take_eq_take_iff]
    omega
  · rw [hwrite]
    exact decide_eq_true_iff
  · have hall : Buffer.writeAll ⟨[], room⟩ cut = write room events := by
      rw [Buffer.writeAll_eq_write, hcut, hwrite]
    refine ⟨hall, ?_⟩
    rintro done rest rfl hfull
    rw [← hall, Buffer.writeAll_append hfull]

/-- Room that ends inside the first word of a line, and a text in three pieces of which the second is cut. -/
theorem write_keeps_prefix_cut_word :
    let events : List Event := [⟨12, 1, ⟨440, 1024, 100, 10⟩⟩]
    let bytes := (text events).toUTF8.data.toList
    let done := [bytes.take 50, (bytes.drop 50).take 30]
    let cut := done ++ [bytes.drop 80]
    let kept := header ++ "\n      12     1  0x000"
    cut.flatten = bytes ∧ (Buffer.writeAll ⟨[], 68⟩ done).2 = false ∧
      (Buffer.writeAll ⟨[], 68⟩ cut).1.written = kept.toUTF8.data.toList ∧
      (Buffer.writeAll ⟨[], 68⟩ cut).2 = false ∧
      Buffer.writeAll ⟨[], 68⟩ done = Buffer.writeAll ⟨[], 68⟩ cut := by
  intro events bytes done cut kept
  have hcut : cut.flatten = bytes := rfl
  have hfull : (Buffer.writeAll ⟨[], 68⟩ done).2 = false := rfl
  obtain ⟨hwritten, hok, hcuts⟩ := write_keeps_prefix events 68
  obtain ⟨hall, hstop⟩ := hcuts cut hcut
  have hlong : ¬ bytes.length ≤ 68 := by decide
  refine ⟨hcut, hfull, ?_, ?_, ?_⟩
  · rw [hall, hwritten]
    rfl
  · rw [hall]
    exact Bool.eq_false_iff.2 (mt hok.1 hlong)
  · rw [hstop done [bytes.drop 80] rfl hfull, hall]

end Trace

end Chiptune
