import Mathlib
import Chiptune.Proofs.Command.Stage
import Chiptune.Proofs.Folder
/-!
# What commands print and record

A command whose player is loaded prints or stores one text, whatever pieces it comes in (`forM_print`). The
text of a trace comes in two ways: in the pieces of which it is made, and line by line from a live run. These
are the same text (`Trace.join_pieces`, `Trace.text_eq_unlines`). The records of a command are those of loading,
those of playback and its own (`work_trace`, `work_trace_out`, `work_play`).

Main statement `play_prints_trace`.
-/
namespace Chiptune

/-! ## Work at a workplace -/

namespace Work

variable {path : String}

@[simp]
theorem run_throw {α : Type} (e : CommandFault) (w : Workplace) : (throw e : Work α).run w = .error e w := rfl

@[simp]
theorem run_folder (names : List String) (w : Workplace) :
    (Shell.folder names : Work Folder).run w = .ok w.folder w := rfl

@[simp]
theorem run_print (text : String) (w : Workplace) :
    (Shell.print text : Work Unit).run w = .ok () { w with output := w.output ++ text } := rfl

@[simp]
theorem run_append (path text : String) (w : Workplace) :
    (Shell.append path text : Work Unit).run w =
      .ok () { w with folder := w.folder.append path text.toUTF8.data } := rfl

@[simp]
theorem run_record (r : LogRecord) (w : Workplace) :
    (Shell.record r : Work Unit).run w = .ok () { w with log := w.log.push r } := rfl

theorem run_create_of_canCreate (w : Workplace) (h : w.folder.canCreate path = true) :
    (Shell.create path : Work Unit).run w = .ok () { w with folder := w.folder.write path #[] } := by
  simp [Shell.create, h]

theorem run_create_of_not_canCreate (w : Workplace) (h : w.folder.canCreate path = false) :
    (Shell.create path : Work Unit).run w = .error (.create path) w := by
  simp [Shell.create, h]

/-- Texts that are printed one after the other are printed as one. -/
theorem forM_print {α : Type} (piece : α → String) (xs : List α) (w : Workplace) :
    (xs.forM fun x => Shell.print (piece x) : Work Unit).run w =
      .ok () { w with output := w.output ++ String.join (xs.map piece) } := by
  induction xs generalizing w with
  | nil => simp [EStateM.run, pure, EStateM.pure]
  | cons x xs ih =>
    have hstep : ((x :: xs).forM fun x => Shell.print (piece x) : Work Unit).run w =
        (xs.forM fun x => Shell.print (piece x) : Work Unit).run { w with output := w.output ++ piece x } := rfl
    rw [hstep, ih, List.map_cons, String.join_cons, String.append_assoc]

@[simp]
theorem run_recordAll (log : List LogRecord) (w : Workplace) :
    (Command.recordAll log : Work Unit).run w = .ok () { w with log := w.log ++ log } := by
  induction log generalizing w with
  | nil => simp [Command.recordAll, EStateM.run, pure, EStateM.pure]
  | cons r log ih =>
    have hstep : (Command.recordAll (r :: log) : Work Unit).run w =
        (Command.recordAll log : Work Unit).run { w with log := w.log.push r } := rfl
    rw [hstep, ih]
    simp

end Work

namespace Command

section
variable {α : Type} {folder : Folder} {options : Options} {files : List String} {p : Player} {fault : PlayerFault}
  {clock : Nat → Nat}

/-! ## Loading -/

theorem run_load_of_ok (h : player folder options files = .ok p) :
    (load options files : Work Player).run { folder, clock } =
      .ok p { folder, clock, log := (loadPlayer folder options files).log.toArray } := by
  have hvalue : (loadPlayer folder options files).value = .ok p := h
  simp [load, hvalue]

theorem run_load_of_error (h : player folder options files = .error fault) :
    (load options files : Work Player).run { folder, clock } =
      .error (.player fault) { folder, clock, log := (loadPlayer folder options files).log.toArray } := by
  have hvalue : (loadPlayer folder options files).value = .error fault := h
  simp [load, hvalue]

theorem run_load_bind_of_error (h : player folder options files = .error fault) (next : Player → Work α) :
    (load options files >>= next).run { folder, clock } =
      .error (.player fault) { folder, clock, log := (loadPlayer folder options files).log.toArray } := by
  rw [EStateM.run_bind, run_load_of_error h]

/-! ## Whole commands -/

/-- A command whose player is not loaded ends there. -/
theorem work_of_error {c : Command} (h : player folder c.options c.files = .error fault) :
    c.work folder clock =
      .error (.player fault) { folder, clock, log := (loadPlayer folder c.options c.files).log.toArray } := by
  cases c with
  | dump file options => exact run_load_bind_of_error h _
  | trace files ticks out options => exact run_load_bind_of_error h _
  | play files ticks options => exact run_load_bind_of_error h _

theorem work_dump {file : String} {part : Part} (h : player folder options [file] = .ok p)
    (hpart : p.parts = [part]) :
    work folder (.dump file options) clock =
      .ok () { folder, clock, output := Text.unlines (dumpLines file part p.bank.tuning)
               log := (loadPlayer folder options [file]).log.toArray } := by
  have hprint := Work.forM_print (· ++ "\n") (dumpLines file part p.bank.tuning)
  simp only [work, perform, performDump, EStateM.run_bind, run_load_of_ok h, hpart]
  refine (hprint _).trans ?_
  simp [Text.unlines]

/-- The records of a trace, from loading to its end. -/
def traceLog (folder : Folder) (options : Options) (files : List String) (p : Player) (ticks : Nat) : List LogRecord :=
  (loadPlayer folder options files).log ++ (p.trace ticks).log ++ [.traced (p.trace ticks).value.length ticks]

theorem work_trace {ticks : Nat} (h : player folder options files = .ok p) :
    work folder (.trace files ticks none options) clock =
      .ok () { folder, clock, output := Trace.text (p.trace ticks).value
               log := (traceLog folder options files p ticks).toArray } := by
  have hprint := Work.forM_print String.ofList (Trace.pieces (p.trace ticks).value)
  simp only [work, perform, performTrace, EStateM.run_bind, run_load_of_ok h, Work.run_recordAll,
    Work.run_record]
  refine (hprint _).trans ?_
  simp [traceLog, Trace.join_pieces]

theorem work_trace_out {ticks : Nat} {out : String} (h : player folder options files = .ok p)
    (hout : folder.canCreate out = true) :
    work folder (.trace files ticks (some out) options) clock =
      .ok () { folder := (folder.write out #[]).write out (Trace.text (p.trace ticks).value).toUTF8.data
               clock
               log := (traceLog folder options files p ticks ++ [LogRecord.wrote out]).toArray } := by
  have hcreate (log : Array LogRecord) := Work.run_create_of_canCreate { folder, clock, log } hout
  simp only [work, perform, performTrace, EStateM.run_bind, run_load_of_ok h, Work.run_recordAll,
    Work.run_record, Work.run_append, hcreate, Folder.append_write_empty]
  simp [traceLog]

/-- A trace whose file cannot be created ends there. -/
theorem work_of_not_canCreate {ticks : Nat} {out : String} (h : player folder options files = .ok p)
    (hout : folder.canCreate out = false) :
    work folder (.trace files ticks (some out) options) clock =
      .error (.create out) { folder, clock, log := (traceLog folder options files p ticks).toArray } := by
  have hcreate (log : Array LogRecord) := Work.run_create_of_not_canCreate { folder, clock, log } hout
  simp only [work, perform, performTrace, EStateM.run_bind, run_load_of_ok h, Work.run_recordAll,
    Work.run_record, hcreate]
  simp [traceLog]

/-- **What is played is printed as the text of a trace**, and its records are kept. -/
theorem work_play {ticks : Option Nat} (h : player folder options files = .ok p) :
    let run := p.live ticks (fun _ _ => false) clock
    ∃ readings, work folder (.play files ticks options) clock =
      .ok () { folder, clock, readings
               output := Trace.text run.value.events
               log := ((loadPlayer folder options files).log ++ run.log ++
                [LogRecord.finished run.value.played]).toArray } := by
  intro run
  obtain ⟨readings, hplay⟩ := p.run_playLive_stage ticks
    { folder, clock, output := Trace.header ++ "\n", log := (loadPlayer folder options files).log.toArray } rfl
  refine ⟨readings, ?_⟩
  simp only [work, perform, performPlay, EStateM.run_bind, run_load_of_ok h, printLine,
    Work.run_print, Work.run_record, String.empty_append, hplay]
  simp [Trace.text_eq_unlines, Text.unlines_cons, run]

/-! ## Sessions -/

theorem run_of_work_ok {c : Command} {w : Workplace} (h : c.work folder clock = .ok () w) :
    c.run folder clock = .ok () w.toSession := by
  rw [run, h]

theorem run_of_work_error {c : Command} {w : Workplace} {e : CommandFault} (h : c.work folder clock = .error e w) :
    c.run folder clock = .error e w.toSession := by
  rw [run, h]

/-- **Live playback prints the trace.** Where the player is loaded, live playback of `n` ticks and a trace of
`n` ticks print the same text, that of the player's trace, whatever the clock does. A trace that is stored
leaves the bytes of this text in its file and every other file as it was, and prints nothing. -/
theorem play_prints_trace {n : Nat} (hn : n < word64Limit) (h : player folder options files = .ok p) :
    let text := Trace.text (p.trace n).value
    (∀ clock, run folder (.play files (some n) options) clock = .ok () ⟨folder, text⟩) ∧
    (∀ clock, run folder (.trace files n none options) clock = .ok () ⟨folder, text⟩) ∧
    ∀ clock out, folder.canCreate out = true →
      ∃ after, run folder (.trace files n (some out) options) clock = .ok () ⟨after, ""⟩ ∧
        after.read out = .ok text.toUTF8.data ∧ ∀ l, l ≠ .ofPath out → after.file? l = folder.file? l := by
  intro text
  refine ⟨?_, fun clock => run_of_work_ok (work_trace h), ?_⟩
  · intro clock
    have hend : IsLeast {m | false = true ∨ some n = some m} n := by
      refine ⟨.inr rfl, ?_⟩
      rintro m (hm | hm)
      · cases hm
      · exact (Option.some.inj hm).le
    obtain ⟨-, hevents, -⟩ := Player.live_reaches (fun _ _ => false) clock hn hend
    obtain ⟨_, hwork⟩ := work_play h
    rw [run_of_work_ok hwork, hevents]
  · intro clock out hout
    refine ⟨_, run_of_work_ok (work_trace_out h hout), ?_, ?_⟩
    · exact Folder.read_write (Folder.canCreate_write hout #[]) _
    · intro l hl
      rw [Folder.file?_write_of_ne hl, Folder.file?_write_of_ne hl]

/-- Two parts, one of them twice as long as the other, and a trace that is stored in place of the second. -/
theorem play_prints_trace_two_files :
    let folder : Folder :=
      { files := [(⟨.above 0, ["a"]⟩, #[33, 1, 0]), (⟨.above 0, ["b"]⟩, #[12, 2, 0])] }
    let lead : Part := ⟨{}, #[33, 1, 0], by decide, by decide⟩
    let bass : Part := ⟨{}, #[12, 2, 0], by decide, by decide⟩
    let p : Player := { config := {}, bank := .reference, parts := [lead, bass], accepted := rfl }
    let text := Trace.text (p.trace 4).value
    (p.trace 4).value.map (fun e => (e.tick, e.track)) = [(0, 0), (0, 1), (2, 0), (3, 1)] ∧
      run folder (.play ["a", "b"] (some 4) {}) = .ok () ⟨folder, text⟩ ∧
      run folder (.trace ["a", "b"] 4 none {}) = .ok () ⟨folder, text⟩ ∧
      ∃ after, run folder (.trace ["a", "b"] 4 (some "b") {}) = .ok () ⟨after, ""⟩ ∧
        after.read "b" = .ok text.toUTF8.data ∧ after.file? ⟨.above 0, ["a"]⟩ = some #[33, 1, 0] := by
  intro folder lead bass p text
  have hp : player folder {} ["a", "b"] = .ok p := by cbv
  have hout : folder.canCreate "b" = true := by cbv
  have ha : Location.ofPath "b" = ⟨.above 0, ["b"]⟩ := by cbv
  obtain ⟨hplay, htrace, hstored⟩ := play_prints_trace (by decide : 4 < word64Limit) hp
  obtain ⟨after, hrun, hread, hothers⟩ := hstored (fun _ => 0) "b" hout
  refine ⟨by decide, hplay _, htrace _, after, hrun, hread, ?_⟩
  rw [hothers _ (by rw [ha]; decide)]
  rfl

end

end Command

end Chiptune
