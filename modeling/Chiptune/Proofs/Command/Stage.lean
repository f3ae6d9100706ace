import Mathlib
import Chiptune.Command
import Chiptune.Proofs.Live
import Chiptune.Proofs.Trace
/-!
# Live playback in a shell

Live playback is one program for every stage. Where one stage does what another does, with more around it, so do
its runs: `Follows` goes from the actions of two stages to their ticks, and by induction to whole runs
(`Stage.Follows.run`). So what live playback prints and records at a workplace is what a take of it has
(`run_playLive_stage`).
-/
namespace Chiptune

/-! ## Work that follows -/

/-- The work comes to the same result as an action on another state, and leaves the workplace that belongs to the
state afterwards. -/
def Follows {σ α : Type} (place : σ → Workplace) (x : Work α) (y : StateM σ α) : Prop :=
  ∀ t, x.run (place t) = .ok ((y.run t).run).1 (place ((y.run t).run).2)

namespace Follows

variable {σ α β : Type} {place : σ → Workplace} {x : Work α} {y : StateM σ α}

theorem pure (a : α) : Follows place (Pure.pure a) (Pure.pure a) := fun _ => rfl

theorem bind {f : α → Work β} {g : α → StateM σ β} (h : Follows place x y) (hnext : ∀ a, Follows place (f a) (g a)) :
    Follows place (x >>= f) (y >>= g) := by
  intro t
  rw [EStateM.run_bind, h t]
  exact hnext _ _

theorem forM_list {f : α → Work Unit} {g : α → StateM σ Unit} (h : ∀ a, Follows place (f a) (g a)) (xs : List α) :
    Follows place (xs.forM f) (xs.forM g) := by
  induction xs with
  | nil => exact pure ()
  | cons a xs ih => exact (h a).bind fun _ => ih

theorem forM_option {f : α → Work Unit} {g : α → StateM σ Unit} (h : ∀ a, Follows place (f a) (g a)) (o : Option α) :
    Follows place (o.forM f) (o.forM g) := by
  cases o with
  | none => exact pure ()
  | some a => exact h a

end Follows

/-- Every action of the one stage follows that of the other. -/
structure Stage.Follows {σ : Type} (place : σ → Workplace) (x : Stage Work) (y : Stage (StateM σ)) : Prop where
  stopped : ∀ ticks, Chiptune.Follows place (x.stopped ticks) (y.stopped ticks)
  report : ∀ e, Chiptune.Follows place (x.report e) (y.report e)
  record : ∀ r, Chiptune.Follows place (x.record r) (y.record r)
  now : Chiptune.Follows place x.now y.now
  pause : ∀ p, Chiptune.Follows place (x.pause p) (y.pause p)

namespace Stage.Follows

variable {σ : Type} {place : σ → Workplace} {x : Stage Work} {y : Stage (StateM σ)} {capacity : Nat}

theorem steps (h : x.Follows place y) (number index : Nat) (steps : List Step) :
    Chiptune.Follows place (Live.steps x number index steps) (Live.steps y number index steps) := by
  induction steps generalizing index with
  | nil => exact .pure ()
  | cons s rest ih =>
    refine (Chiptune.Follows.forM_list h.record s.log).bind fun _ => ?_
    exact (Chiptune.Follows.forM_option (fun tone => h.report _) _).bind fun _ => ih (index + 1)

theorem tick (h : x.Follows place y) (pace : Pace) (s : Sequencer capacity) :
    Chiptune.Follows place (Live.tick x pace s) (Live.tick y pace s) := by
  refine (h.steps s.ticks 0 s.steps).bind fun _ => h.now.bind fun now => ?_
  refine (Chiptune.Follows.forM_option h.record _).bind fun _ => ?_
  exact (h.pause _).bind fun _ => .pure _

/-- **Where each action follows, so does a run.** -/
theorem run (h : x.Follows place y) (limit : Option Nat) (bound : Nat) (pace : Pace) (s : Sequencer capacity) :
    Chiptune.Follows place (Live.run x limit bound pace s) (Live.run y limit bound pace s) := by
  induction bound generalizing pace s with
  | zero => exact .pure _
  | succ bound ih =>
    refine (h.stopped s.ticks).bind fun stopped => ?_
    cases stopped with
    | true => exact .pure _
    | false =>
      by_cases hlimit : limit.any (· ≤ s.ticks) = true
      · simp only [hlimit, if_true]
        exact .pure _
      · simp only [hlimit]
        exact (h.tick pace s).bind fun pace => ih pace _

theorem playLive (h : x.Follows place y) (p : Player) (limit : Option Nat) :
    Chiptune.Follows place (p.playLive x limit) (p.playLive y limit) :=
  h.now.bind fun _ => (h.record _).bind fun _ => h.run limit _ _ _

end Stage.Follows

/-! ## The stage of a command -/

/-- The workplace after all that is in a take has been printed and recorded at it. -/
def Workplace.add (w : Workplace) (t : Take) : Workplace :=
  { w with
    output := w.output ++ Text.unlines (t.events.toList.map Trace.Event.line)
    log := w.log ++ t.log.toList
    readings := w.readings + t.readings }

theorem Workplace.add_empty (w : Workplace) : w.add {} = w := by
  simp [add, Text.unlines]

/-- **Live playback of a command prints and records what is in a take of it**, by the same clock. -/
theorem Command.stage_follows (w : Workplace) :
    Stage.Follows w.add Command.stage (Take.stage (fun _ _ => false) fun k => w.clock (w.readings + k)) where
  stopped _ _ := rfl
  report e t := by
    have hplace : w.add { t with events := t.events.push e } =
        { w.add t with output := (w.add t).output ++ (e.line ++ "\n") } := by
      simp [Workplace.add, Text.unlines, String.append_assoc]
    rw [Take.run_report, hplace]
    rfl
  record r t := by
    have hplace : w.add { t with log := t.log.push r } = { w.add t with log := (w.add t).log.push r } := by
      simp [Workplace.add, appendList_append]
    rw [Take.run_record, hplace]
    rfl
  now _ := rfl
  pause _ _ := rfl

/-- What live playback leaves at a workplace whose clock has not been read yet. -/
theorem Player.run_playLive_stage (p : Player) (limit : Option Nat) (w : Workplace) (hw : w.readings = 0) :
    let run := p.live limit (fun _ _ => false) w.clock
    ∃ readings, (p.playLive (Command.stage : Stage Work) limit).run w = .ok run.value.played
      { w with
        output := w.output ++ Text.unlines (run.value.events.map Trace.Event.line)
        log := w.log ++ run.log
        readings } := by
  intro run
  have hclock : (fun k => w.clock (w.readings + k)) = w.clock := by
    simp only [hw, Nat.zero_add]
  have hrun := (Command.stage_follows w).playLive p limit {}
  rw [hclock, w.add_empty, run_playLive] at hrun
  exact ⟨_, hrun⟩

end Chiptune
