import Mathlib.Order.Bounds.Defs
import Chiptune.Proofs.Playback
/-!
# Live playback

Live playback plays what a trace of as many ticks has. Offline the ticks are numbered by the player, live by the
sequencer; `Reached` says that a take is at the same tick as an offline run. What a tick leaves behind in a take is
worked out once (`run_tick`); what every tick keeps is kept by a run (`takeRun_keeps`), and a run ends at the first
check that ends it (`takeRun_ends`). The clock decides on the pauses with their warnings, and on nothing else
(`takeRun_congr`, `live_follows_trace`).

Main statement `live_reports_trace`.
-/
namespace Chiptune

/-! ## Warnings -/

theorem Pause.level_of_mem_record? {p : Pause} {r : LogRecord} (h : r ∈ p.record?) : r.level = .warn := by
  cases p with
  | sleep duration => cases h
  | none => cases h
  | resync behind =>
    cases h
    rfl

/-- Tracks do not warn. -/
theorem Track.level_of_mem_records {t : Track} {bank : Soundbank} {e : Entry} {r : LogRecord}
    (h : r ∈ t.records bank e) : r.level ≠ .warn := by
  unfold records at h
  rcases List.mem_append.1 h with hsound | hmark
  · cases hnote : bank.tuning.get? e.note.toNat with
    | none =>
      rw [hnote] at hsound
      cases hsound
    | some hz =>
      rw [hnote] at hsound
      rw [List.mem_singleton.1 hsound]
      nofun
  · by_cases hend : e.note = Entry.endMark
    · rw [if_pos hend] at hmark
      rw [List.mem_singleton.1 hmark]
      nofun
    · rw [if_neg hend] at hmark
      cases hmark

theorem Track.level_of_mem_tick {t : Track} {bank : Soundbank} {r : LogRecord} (h : r ∈ (t.tick bank).log) :
    r.level ≠ .warn := by
  by_cases hwait : 0 < t.wait
  · rw [tick_of_waiting hwait] at h
    cases h
  · rw [tick_of_ready (Nat.eq_zero_of_not_pos hwait)] at h
    exact level_of_mem_records h

theorem Sequencer.level_of_mem_tick {capacity : Nat} {s : Sequencer capacity} {r : LogRecord} (h : r ∈ s.tick.log) :
    r.level ≠ .warn := by
  obtain ⟨step, hstep, hr⟩ := List.mem_flatMap.1 h
  obtain ⟨t, -, rfl⟩ := List.mem_map.1 hstep
  exact Track.level_of_mem_tick hr

/-! ## One tick -/

theorem appendList_append {α : Type} (xs : Array α) (ys zs : List α) : xs ++ (ys ++ zs) = xs ++ ys ++ zs :=
  Array.toList_inj.1 (by simp)

namespace Take

/-- A take with the calls and the records of one more tick, and the pause after it. -/
def addTick (t : Take) (events : List Trace.Event) (log : List LogRecord) (pause : Pause) : Take where
  events := t.events ++ events
  pauses := t.pauses.push pause
  log := t.log ++ log ++ pause.record?.toList
  readings := t.readings + 1

theorem plain_addTick {t : Take} {events : List Trace.Event} {log : List LogRecord} {pause : Pause}
    (h : ∀ r ∈ log, r.level ≠ .warn) :
    (t.addTick events log pause).log.toList.filter (·.level ≠ .warn) =
      t.log.toList.filter (·.level ≠ .warn) ++ log := by
  have hlog : log.filter (·.level ≠ .warn) = log := List.filter_eq_self.2 (by simpa using h)
  have hpause : pause.record?.toList.filter (·.level ≠ .warn) = [] :=
    List.filter_eq_nil_iff.2 fun r hr => by simpa using Pause.level_of_mem_record? (Option.mem_toList.1 hr)
  rw [addTick, Array.toList_appendList, Array.toList_appendList, List.filter_append, List.filter_append, hlog, hpause,
    List.append_nil]

theorem warnings_addTick {t : Take} {events : List Trace.Event} {log : List LogRecord} {pause : Pause}
    (h : ∀ r ∈ log, r.level ≠ .warn) :
    (t.addTick events log pause).log.toList.filter (·.level = .warn) =
      t.log.toList.filter (·.level = .warn) ++ pause.record?.toList := by
  have hlog : log.filter (·.level = .warn) = [] := List.filter_eq_nil_iff.2 (by simpa using h)
  have hpause : pause.record?.toList.filter (·.level = .warn) = pause.record?.toList :=
    List.filter_eq_self.2 fun r hr => by simpa using Pause.level_of_mem_record? (Option.mem_toList.1 hr)
  rw [addTick, Array.toList_appendList, Array.toList_appendList, List.filter_append, List.filter_append, hlog, hpause,
    List.append_nil]

section Stage

variable {stop : Nat → Array Trace.Event → Bool} {clock : Nat → Nat} {t : Take}

@[simp]
theorem run_stopped (ticks : Nat) : (((stage stop clock).stopped ticks).run t).run = (stop ticks t.events, t) := rfl

@[simp]
theorem run_report (e : Trace.Event) :
    (((stage stop clock).report e).run t).run = ((), { t with events := t.events.push e }) := rfl

@[simp]
theorem run_record (r : LogRecord) :
    (((stage stop clock).record r).run t).run = ((), { t with log := t.log.push r }) := rfl

@[simp]
theorem run_now :
    ((stage stop clock).now.run t).run = (clock t.readings, { t with readings := t.readings + 1 }) := rfl

@[simp]
theorem run_pause (p : Pause) :
    (((stage stop clock).pause p).run t).run = ((), { t with pauses := t.pauses.push p }) := rfl

theorem run_forM_record (log : List LogRecord) (t : Take) :
    ((log.forM (stage stop clock).record).run t).run = ((), { t with log := t.log ++ log }) := by
  induction log generalizing t with
  | nil => simp
  | cons r log ih => simpa using ih { t with log := t.log.push r }

end Stage

end Take

namespace Live

variable {capacity : Nat} {s q : Sequencer capacity} {t t' : Take} {pace pace' : Pace} {k n bound : Nat}
  {stop : Nat → Array Trace.Event → Bool} {limit : Option Nat} {clock clock' : Nat → Nat}

/-- The steps of a tick leave their calls and their records. -/
theorem run_steps (number index : Nat) (steps : List Step) (t : Take) :
    ((Live.steps (Take.stage stop clock) number index steps).run t).run =
      ((), { t with
        events := t.events ++ (Sequencer.tonesFrom index steps).map fun e => (⟨number, e.1, e.2.pack⟩ : Trace.Event)
        log := t.log ++ steps.flatMap (·.log) }) := by
  induction steps generalizing index t with
  | nil => simp [Live.steps, Sequencer.tonesFrom]
  | cons s rest ih =>
    simp only [Live.steps, StateT.run_bind, Id.run_bind, Take.run_forM_record]
    cases htone : s.outcome.tone? with
    | none => simp [Sequencer.tonesFrom, htone, ih, appendList_append]
    | some tone => simp [Sequencer.tonesFrom, htone, ih, appendList_append]

/-- **What a tick leaves behind.** -/
theorem run_tick (pace : Pace) (s : Sequencer capacity) (t : Take) :
    ((tick (Take.stage stop clock) pace s).run t).run =
      ((pace.next (clock t.readings)).1,
        t.addTick (s.tick.events s.ticks) s.tick.log (pace.next (clock t.readings)).2) := by
  simp only [tick, StateT.run_bind, Id.run_bind, run_steps, Take.run_now]
  cases pace.next (clock t.readings) with | mk pace pause =>
  cases hrecord : pause.record? with
  | none => simp [Take.addTick, Tick.events, Sequencer.tick, hrecord]
  | some r => simp [Take.addTick, Tick.events, Sequencer.tick, hrecord]

/-! ## Runs -/

/-- A run on the stage where all is written down: the ticks played, and the take. -/
def takeRun (stop : Nat → Array Trace.Event → Bool) (limit : Option Nat) (clock : Nat → Nat) (bound : Nat)
    (pace : Pace) (s : Sequencer capacity) (t : Take) : Nat × Take :=
  ((run (Take.stage stop clock) limit bound pace s).run t).run

/-- The check before a tick ends playback: so many ticks have been played, with these calls. -/
def Ends (stop : Nat → Array Trace.Event → Bool) (limit : Option Nat) (ticks : Nat) (events : Array Trace.Event) :
    Prop :=
  stop ticks events = true ∨ ∃ n ∈ limit, n ≤ ticks

theorem ends_iff {events : Array Trace.Event} :
    Ends stop limit n events ↔ stop n events = true ∨ limit.any (· ≤ n) = true := by
  simp [Ends, Option.any_eq_true]

theorem takeRun_of_ends (h : Ends stop limit s.ticks t.events) :
    takeRun stop limit clock (bound + 1) pace s t = (s.ticks, t) := by
  rw [takeRun, run, StateT.run_bind, Id.run_bind, Take.run_stopped]
  rcases ends_iff.1 h with hstop | hlimit
  · simp [hstop]
  · simp [hlimit]

theorem takeRun_of_not_ends (h : ¬ Ends stop limit s.ticks t.events) :
    takeRun stop limit clock (bound + 1) pace s t =
      takeRun stop limit clock bound (pace.next (clock t.readings)).1 s.tick.sequencer
        (t.addTick (s.tick.events s.ticks) s.tick.log (pace.next (clock t.readings)).2) := by
  rw [ends_iff, not_or] at h
  rw [takeRun, run, StateT.run_bind, Id.run_bind, Take.run_stopped]
  simp [h.1, h.2, run_tick, takeRun]

/-- **What every tick keeps is kept by a run.** -/
theorem takeRun_keeps {P : Sequencer capacity → Take → Prop}
    (hstep : ∀ s t pause, P s t → P s.tick.sequencer (t.addTick (s.tick.events s.ticks) s.tick.log pause))
    (h : P s t) : ∃ q, P q (takeRun stop limit clock bound pace s t).2 ∧
      (takeRun stop limit clock bound pace s t).1 = q.ticks := by
  induction bound generalizing pace s t with
  | zero => exact ⟨s, h, rfl⟩
  | succ bound ih =>
    by_cases hends : Ends stop limit s.ticks t.events
    · rw [takeRun_of_ends hends]
      exact ⟨s, h, rfl⟩
    · rw [takeRun_of_not_ends hends]
      exact ih (hstep s t _ h)

/-- What is played depends on no clock and on no pace. -/
theorem takeRun_congr (h : t.events = t'.events) :
    (takeRun stop limit clock bound pace s t).1 = (takeRun stop limit clock' bound pace' s t').1 ∧
      (takeRun stop limit clock bound pace s t).2.events = (takeRun stop limit clock' bound pace' s t').2.events := by
  induction bound generalizing s t t' pace pace' with
  | zero => exact ⟨rfl, h⟩
  | succ bound ih =>
    by_cases hends : Ends stop limit s.ticks t.events
    · have hends' : Ends stop limit s.ticks t'.events := h ▸ hends
      rw [takeRun_of_ends hends, takeRun_of_ends hends']
      exact ⟨rfl, h⟩
    · have hends' : ¬ Ends stop limit s.ticks t'.events := h ▸ hends
      rw [takeRun_of_not_ends hends, takeRun_of_not_ends hends']
      refine ih ?_
      rw [Take.addTick, Take.addTick, h]

/-! ## The offline run -/

/-- Tick `n` of live playback, which began with a record of its own: sequencer and take are where an offline run of
`n` ticks is. There has been a pause after each tick, and the warnings are those of the pauses. -/
structure Reached (s : Sequencer capacity) (start : LogRecord) (n : Nat) (q : Sequencer capacity) (t : Take) :
    Prop where
  sequencer_eq : q = s.after n
  events_eq : t.events = (Playback.run n { sequencer := s }).events
  pauses_size : t.pauses.size = n
  records_eq : t.log.toList.filter (·.level ≠ .warn) = start :: (Playback.run n { sequencer := s }).log.toList
  warnings_eq : t.log.toList.filter (·.level = .warn) = t.pauses.toList.filterMap Pause.record?

section
variable {start : LogRecord} (hs : s.ticks = 0) (h : Reached s start k q t)

include hs h

theorem Reached.ticks_eq : q.ticks = k := by
  rw [h.sequencer_eq, Sequencer.ticks_after, hs, Nat.zero_add]

/-- The sequencer numbers its next tick as an offline run does, whatever pause comes after it. -/
theorem Reached.tick (pause : Pause) :
    Reached s start (k + 1) q.tick.sequencer (t.addTick (q.tick.events q.ticks) q.tick.log pause) := by
  have hq : (Playback.run k { sequencer := s }).sequencer = q := by
    rw [Playback.sequencer_run, h.sequencer_eq]
  have hlevel : ∀ r ∈ q.tick.log, r.level ≠ .warn := fun _ => Sequencer.level_of_mem_tick
  refine ⟨by rw [h.sequencer_eq, Sequencer.after_succ], ?_, ?_, ?_, ?_⟩
  · rw [Playback.run_succ, Playback.tick, hq, ← h.events_eq, h.ticks_eq hs]
    rfl
  · simp [Take.addTick, h.pauses_size]
  · rw [Take.plain_addTick hlevel, h.records_eq, Playback.run_succ, Playback.tick, hq, Array.toList_appendList,
      List.cons_append]
  · rw [Take.warnings_addTick hlevel, h.warnings_eq]
    cases hrecord : pause.record? <;> simp [Take.addTick, hrecord]

/-- **Live playback is always where an offline run of as many ticks is.** -/
theorem takeRun_reached :
    ∃ q', Reached s start (takeRun stop limit clock bound pace q t).1 q'
      (takeRun stop limit clock bound pace q t).2 := by
  have hreached : Reached s start q.ticks q t := by rwa [h.ticks_eq hs]
  obtain ⟨q', hreached', hplayed⟩ :=
    takeRun_keeps (P := fun q t => Reached s start q.ticks q t) (fun _ _ pause hq => hq.tick hs pause) hreached
  exact ⟨q', hplayed ▸ hreached'⟩

/-- **A run ends at the first check that ends it.** -/
theorem takeRun_ends (hend : Ends stop limit n (Playback.run n { sequencer := s }).events) (hk : k ≤ n)
    (hn : n < k + bound)
    (hgo : ∀ m, k ≤ m → m < n → ¬ Ends stop limit m (Playback.run m { sequencer := s }).events) :
    (takeRun stop limit clock bound pace q t).1 = n := by
  induction bound generalizing k q t pace with
  | zero => omega
  | succ bound ih =>
    have hends : Ends stop limit q.ticks t.events ↔ Ends stop limit k (Playback.run k { sequencer := s }).events := by
      rw [h.ticks_eq hs, h.events_eq]
    by_cases hkn : k = n
    · subst hkn
      rw [takeRun_of_ends (hends.2 hend)]
      exact h.ticks_eq hs
    · have hgo' := hgo k (Nat.le_refl k) (by omega)
      rw [takeRun_of_not_ends fun hnow => hgo' (hends.1 hnow)]
      exact ih (h.tick hs _) (by omega) (by omega) (fun m hm => hgo m (by omega))

end

end Live

namespace Player

variable {p : Player} {limit : Option Nat} {stop : Nat → Array Trace.Event → Bool} {clock : Nat → Nat} {n : Nat}

/-- The record that live playback starts with. -/
def startRecord (p : Player) : LogRecord := .playing p.parts.length p.config.tickRate

/-- The run of live playback, from its record on. -/
def takeLive (p : Player) (limit : Option Nat) (stop : Nat → Array Trace.Event → Bool) (clock : Nat → Nat) :
    Nat × Take :=
  Live.takeRun stop limit clock word64Limit (.ofRate p.config.tickRate (clock 0)) p.sequencer
    { log := #[p.startRecord], readings := 1 }

theorem run_playLive (p : Player) (limit : Option Nat) (stop : Nat → Array Trace.Event → Bool) (clock : Nat → Nat) :
    ((p.playLive (Take.stage stop clock) limit).run {}).run = p.takeLive limit stop clock := rfl

theorem reached_start (p : Player) :
    Live.Reached p.sequencer p.startRecord 0 p.sequencer { log := #[p.startRecord], readings := 1 } where
  sequencer_eq := rfl
  events_eq := rfl
  pauses_size := rfl
  records_eq := rfl
  warnings_eq := rfl

/-- **Live playback has the calls and the records of a trace of as many ticks.** Its records come after one of the
start; beside them there is a warning for each pause that gives ticks up. -/
theorem live_follows_trace (p : Player) (limit : Option Nat) (stop : Nat → Array Trace.Event → Bool)
    (clock : Nat → Nat) :
    let run := p.live limit stop clock
    run.value.events = (p.trace run.value.played).value ∧ run.value.pauses.length = run.value.played ∧
      run.log.filter (·.level ≠ .warn) = p.startRecord :: (p.trace run.value.played).log ∧
      run.log.filter (·.level = .warn) = run.value.pauses.filterMap Pause.record? := by
  obtain ⟨q, h⟩ : ∃ q, Live.Reached p.sequencer p.startRecord (p.takeLive limit stop clock).1 q
      (p.takeLive limit stop clock).2 := Live.takeRun_reached rfl p.reached_start
  exact ⟨congrArg Array.toList h.events_eq, h.pauses_size, h.records_eq, h.warnings_eq⟩

theorem live_reaches (stop : Nat → Array Trace.Event → Bool) (clock : Nat → Nat) (hn : n < word64Limit)
    (hend : IsLeast {m | stop m (p.trace m).value.toArray = true ∨ limit = some m} n) :
    (p.live limit stop clock).value.played = n ∧
    (p.live limit stop clock).value.events = (p.trace n).value ∧
    (p.live limit stop clock).value.pauses.length = n := by
  have hevents (m : Nat) : (Playback.run m { sequencer := p.sequencer }).events = (p.trace m).value.toArray := by
    rw [trace, Array.toArray_toList]
  have hstop : Live.Ends stop limit n (Playback.run n { sequencer := p.sequencer }).events := by
    rw [hevents]
    rcases hend.1 with hflag | rfl
    · exact .inl hflag
    · exact .inr ⟨n, rfl, Nat.le_refl n⟩
  -- A check past the limit is later than the one at the limit.
  have hgo : ∀ m, 0 ≤ m → m < n → ¬ Live.Ends stop limit m (Playback.run m { sequencer := p.sequencer }).events := by
    intro m _ hm h
    rw [hevents] at h
    rcases h with hflag | ⟨ticks, rfl, hticks⟩
    · have : n ≤ m := hend.2 (.inl hflag)
      omega
    · have : n ≤ ticks := hend.2 (.inr rfl)
      omega
  have hplayed : (p.takeLive limit stop clock).1 = n :=
    Live.takeRun_ends rfl p.reached_start hstop (Nat.zero_le n) (by omega) hgo
  obtain ⟨htrace, hpauses, -⟩ := p.live_follows_trace limit stop clock
  have hlive : (p.live limit stop clock).value.played = n := hplayed
  rw [hlive] at htrace hpauses
  exact ⟨hlive, htrace, hpauses⟩

/-- The first check that shows a stop which a call raises is the one after the tick of the first such call. -/
theorem isLeast_of_raised {raises : Trace.Event → Bool} {e : Trace.Event}
    (he : e ∈ (p.trace (e.tick + 1)).value) (hraises : raises e = true)
    (hfirst : ∀ f ∈ (p.trace e.tick).value, raises f = false) (hlimit : ∀ ticks ∈ limit, e.tick < ticks) :
    IsLeast {m | (p.trace m).value.toArray.any raises = true ∨ limit = some m} (e.tick + 1) := by
  constructor
  · left
    rw [List.any_toArray, List.any_eq_true]
    exact ⟨e, he, hraises⟩
  · rintro m (hraised | rfl)
    · obtain ⟨f, hf, hraised⟩ := by simpa using hraised
      by_contra hm
      have hf := (p.trace_begins (by omega : m ≤ e.tick)).subset hf
      rw [hfirst f hf] at hraised
      cases hraised
    · exact hlimit m rfl

/-- **Live playback makes the calls of the trace.** If `n` is the first check that shows a stop or the limit,
then `n` ticks are played, with the calls of the trace of `n` ticks and a pause after each tick; `stop` may
depend on the check and on the calls made before it. A stop that a call raises lets the tick of this call
end, and nothing later is played. No clock changes what is played. -/
theorem live_reports_trace (p : Player) (limit : Option Nat) (clock : Nat → Nat) :
    (∀ stop n, n < word64Limit →
      IsLeast {m | stop m (p.trace m).value.toArray = true ∨ limit = some m} n →
      (p.live limit stop clock).value.played = n ∧
      (p.live limit stop clock).value.events = (p.trace n).value ∧
      (p.live limit stop clock).value.pauses.length = n) ∧
    (∀ raises e, e ∈ (p.trace (e.tick + 1)).value → raises e = true →
      (∀ f ∈ (p.trace e.tick).value, raises f = false) →
      e.tick + 1 < word64Limit → (∀ ticks ∈ limit, e.tick < ticks) →
      (p.live limit (fun _ events => events.any raises) clock).value.played = e.tick + 1 ∧
      (p.live limit (fun _ events => events.any raises) clock).value.events =
        (p.trace (e.tick + 1)).value) ∧
    ∀ stop clock', (p.live limit stop clock').value.played = (p.live limit stop clock).value.played ∧
      (p.live limit stop clock').value.events = (p.live limit stop clock).value.events := by
  refine ⟨fun stop n hn hend => live_reaches stop clock hn hend, ?_, ?_⟩
  · intro raises e he hraises hfirst hn hlimit
    have hend := isLeast_of_raised he hraises hfirst hlimit
    obtain ⟨hplayed, hevents, -⟩ := live_reaches (fun _ calls => calls.any raises) clock hn hend
    exact ⟨hplayed, hevents⟩
  · intro stop clock'
    obtain ⟨hplayed, hevents⟩ : (p.takeLive limit stop clock').1 = (p.takeLive limit stop clock).1 ∧
        (p.takeLive limit stop clock').2.events = (p.takeLive limit stop clock).2.events := Live.takeRun_congr rfl
    exact ⟨hplayed, congrArg Array.toList hevents⟩

/-- Two parts stopped by a flag before tick 2, and by the first call of tick 2: the second part still calls
in that tick. The clock of the second run stands still for a while and then leaps. -/
theorem live_reports_trace_two_parts :
    let lead : Part := ⟨{}, #[33, 1, 0, 35, 0, 0], by decide, by decide⟩
    let bass : Part := ⟨{}, #[12, 0, 0], by decide, by decide⟩
    let p : Player := { config := {}, bank := .reference, parts := [lead, bass], accepted := rfl }
    (p.live (some 5) fun check _ => check == 2).value.played = 2 ∧
    (p.live none (fun _ calls => calls.any (·.tick == 2)) fun k => k / 3 * 1000000000).value.events.map
      (fun e => (e.tick, e.track)) = [(0, 0), (0, 1), (1, 1), (2, 0), (2, 1)] := by
  intro lead bass p
  constructor
  · obtain ⟨hflag, -⟩ := live_reports_trace p (some 5) fun _ => 0
    refine (hflag (fun check _ => check == 2) 2 (by decide) ⟨.inl rfl, ?_⟩).1
    rintro m (hm | hm)
    · exact (eq_of_beq hm).ge
    · simp at hm
      omega
  · obtain ⟨-, hraised, -⟩ := live_reports_trace p none fun k => k / 3 * 1000000000
    have h := hraised (·.tick == 2) ⟨2, 0, ⟨490, 0, 100, 2⟩⟩ (by decide) rfl (by decide) (by decide)
      (by simp)
    rw [h.2]
    decide

end Player

end Chiptune
