import Mathlib.Data.List.Sort
import Chiptune.Player
import Chiptune.Proofs.Sequencer
/-!
# Traces of playback

A trace grows tick by tick (`trace_succ`), and a tick adds what its tracks would call on their own. From
these two, by induction on the ticks: a trace has exactly the calls of the tracks on their own (`mem_trace`)
in the order of ticks and tracks (`pairwise_trace`), and a shorter trace is the beginning of a longer one
(`trace_eq_filter`).

Main statement `trace_merges_tracks`.
-/
namespace Chiptune

namespace Trace

/-- Earlier in a trace: at an earlier tick, or at the same tick on an earlier track. -/
def Event.Before (a b : Event) : Prop := a.tick < b.tick ∨ a.tick = b.tick ∧ a.track < b.track

/-- The calls of one track with their ticks. -/
def ofTrack (track : Nat) (events : List Event) : List (Nat × HostCall) :=
  (events.filter (·.track = track)).map fun e => (e.tick, e.call)

theorem mem_ofTrack {track tick : Nat} {call : HostCall} {events : List Event} :
    (tick, call) ∈ ofTrack track events ↔ ⟨tick, track, call⟩ ∈ events := by
  simp only [ofTrack, List.mem_map, List.mem_filter, decide_eq_true_eq, Prod.mk.injEq]
  constructor
  · rintro ⟨e, ⟨he, rfl⟩, rfl, rfl⟩
    exact he
  · intro h
    exact ⟨_, ⟨h, rfl⟩, rfl, rfl⟩

/-- One track calls once a tick at most. -/
theorem pairwise_ofTrack {events : List Event} (h : events.Pairwise Event.Before) (track : Nat) :
    (ofTrack track events).Pairwise fun a b => a.1 < b.1 := by
  rw [ofTrack, List.pairwise_map]
  refine (h.filter _).imp_of_mem ?_
  intro a b ha hb hab
  have ha : a.track = track := by simpa using (List.mem_filter.1 ha).2
  have hb : b.track = track := by simpa using (List.mem_filter.1 hb).2
  rcases hab with hlt | ⟨_, hlt⟩
  · exact hlt
  · omega

/-- Calls in the order of their ticks, one for a tick at most, are known by which they are. -/
theorem eq_of_mem_iff {a b : List (Nat × HostCall)} (ha : a.Pairwise fun x y => x.1 < y.1)
    (hb : b.Pairwise fun x y => x.1 < y.1) (h : ∀ tick call, (tick, call) ∈ a ↔ (tick, call) ∈ b) :
    a = b := by
  have hirrefl : Std.Irrefl fun x y : Nat × HostCall => x.1 < y.1 := ⟨fun _ => Nat.lt_irrefl _⟩
  have hantisymm : Std.Antisymm fun x y : Nat × HostCall => x.1 < y.1 :=
    ⟨fun _ _ hlt hgt => absurd hgt (Nat.lt_asymm hlt)⟩
  exact ha.eq_of_mem_iff hb fun x => h x.1 x.2

end Trace

/-! ## One tick -/

namespace Sequencer

variable {capacity : Nat} {s : Sequencer capacity}

theorem mem_tick_events {number n : Nat} {e : Trace.Event} :
    e ∈ (s.after n).tick.events number ↔ e.tick = number ∧
      ∃ t tone, s.tracks[e.track]? = some t ∧ ((t.after s.bank n).tick s.bank).outcome = .played tone ∧
        tone.pack = e.call := by
  simp only [Tick.events, List.mem_map, Prod.exists]
  constructor
  · rintro ⟨k, tone, hmem, rfl⟩
    obtain ⟨t, ht, hplayed⟩ := mem_tick_tones_after.1 hmem
    exact ⟨rfl, t, tone, ht, hplayed, rfl⟩
  · rintro ⟨rfl, t, tone, ht, hplayed, hcall⟩
    refine ⟨e.track, tone, mem_tick_tones_after.2 ⟨t, ht, hplayed⟩, ?_⟩
    rw [hcall]

theorem pairwise_tick_events (s : Sequencer capacity) (number : Nat) :
    (s.tick.events number).Pairwise Trace.Event.Before := by
  rw [Tick.events, List.pairwise_map]
  exact (pairwise_tonesFrom 0 s.steps).imp fun h => .inr ⟨rfl, h⟩

end Sequencer

/-! ## Ticks in a row -/

namespace Playback

variable {capacity : Nat}

theorem runFrom_succ (first n : Nat) (p : Playback capacity) :
    runFrom first (n + 1) p = (runFrom first n p).tick (first + n) := by
  induction n generalizing first p with
  | zero => rfl
  | succ n ih =>
    have hnumber : first + 1 + n = first + (n + 1) := by omega
    rw [runFrom, ih, hnumber, ← runFrom]

theorem run_succ (n : Nat) (p : Playback capacity) : run (n + 1) p = (run n p).tick n := by
  rw [run, run, runFrom_succ, Nat.zero_add]

theorem sequencer_run (n : Nat) (p : Playback capacity) : (run n p).sequencer = p.sequencer.after n := by
  induction n with
  | zero => rfl
  | succ n ih =>
    rw [run_succ, Sequencer.after_succ, ← ih]
    rfl

/-- One more tick adds its events. -/
theorem events_run_succ (n : Nat) (p : Playback capacity) :
    (run (n + 1) p).events.toList = (run n p).events.toList ++ (p.sequencer.after n).tick.events n := by
  rw [run_succ, tick, sequencer_run]
  simp

end Playback

namespace Player

variable {p : Player} {m n : Nat} {e : Trace.Event}

theorem trace_succ (p : Player) (n : Nat) :
    (p.trace (n + 1)).value = (p.trace n).value ++ (p.sequencer.after n).tick.events n :=
  Playback.events_run_succ n { sequencer := p.sequencer }

/-- **A trace has exactly the calls that the tracks make on their own.** -/
theorem mem_trace :
    e ∈ (p.trace n).value ↔ e.tick < n ∧
      ∃ part tone, p.parts[e.track]? = some part ∧
        ((part.track.after p.bank e.tick).tick p.bank).outcome = .played tone ∧ tone.pack = e.call := by
  induction n with
  | zero => simp [trace, Playback.run, Playback.runFrom]
  | succ n ih =>
    have htick : e ∈ (p.sequencer.after n).tick.events n ↔ e.tick = n ∧
        ∃ part tone, p.parts[e.track]? = some part ∧
          ((part.track.after p.bank e.tick).tick p.bank).outcome = .played tone ∧ tone.pack = e.call := by
      rw [Sequencer.mem_tick_events]
      simp only [sequencer, List.getElem?_map]
      constructor
      · rintro ⟨rfl, t, tone, ht, hrest⟩
        obtain ⟨part, hpart, rfl⟩ := by simpa using ht
        exact ⟨rfl, part, tone, hpart, hrest⟩
      · rintro ⟨rfl, part, tone, hpart, hrest⟩
        exact ⟨rfl, part.track, tone, by rw [hpart]; rfl, hrest⟩
    rw [trace_succ, List.mem_append, ih, htick, ← or_and_right, Nat.lt_succ_iff_lt_or_eq]

/-- **A trace is in the order of ticks, and of tracks within a tick.** -/
theorem pairwise_trace (p : Player) (n : Nat) : (p.trace n).value.Pairwise Trace.Event.Before := by
  induction n with
  | zero => exact .nil
  | succ n ih =>
    rw [trace_succ, List.pairwise_append]
    refine ⟨ih, Sequencer.pairwise_tick_events _ n, ?_⟩
    intro a ha b hb
    have hlt := (mem_trace.1 ha).1
    obtain ⟨hb, -⟩ := Sequencer.mem_tick_events.1 hb
    exact .inl (hb ▸ hlt)

/-- More ticks only add to a trace. -/
theorem trace_begins (p : Player) (h : m ≤ n) : (p.trace m).value <+: (p.trace n).value := by
  induction n, h using Nat.le_induction with
  | base => exact List.prefix_rfl
  | succ n _ ih =>
    rw [trace_succ]
    exact ih.trans (List.prefix_append _ _)

/-- The trace of fewer ticks is what the longer one has of them. -/
theorem trace_eq_filter (p : Player) (h : m ≤ n) :
    (p.trace m).value = (p.trace n).value.filter (·.tick < m) := by
  induction n, h using Nat.le_induction with
  | base =>
    refine (List.filter_eq_self.2 ?_).symm
    intro e he
    simpa using (mem_trace.1 he).1
  | succ n hle ih =>
    -- What tick `n` adds is not before tick `m`.
    have hnone : ((p.sequencer.after n).tick.events n).filter (·.tick < m) = [] := by
      refine List.filter_eq_nil_iff.2 ?_
      intro e he
      have := (Sequencer.mem_tick_events.1 he).1
      simp only [decide_eq_true_eq]
      omega
    rw [trace_succ, List.filter_append, hnone, List.append_nil, ih]

/-- The calls of a track depend on its part and the sound bank alone. -/
theorem ofTrack_trace_congr {q : Player} (hbank : q.bank = p.bank) {j k : Nat}
    (hpart : q.parts[j]? = p.parts[k]?) (n : Nat) :
    Trace.ofTrack j (q.trace n).value = Trace.ofTrack k (p.trace n).value := by
  refine Trace.eq_of_mem_iff (Trace.pairwise_ofTrack (q.pairwise_trace n) j)
    (Trace.pairwise_ofTrack (p.pairwise_trace n) k) ?_
  intro tick call
  rw [Trace.mem_ofTrack, Trace.mem_ofTrack, mem_trace, mem_trace, hbank]
  simp only [hpart]

/-- **A trace is the ordered merge of its tracks played alone.** It is strictly in the order of ticks and
tracks, it has exactly the calls that each track makes on its own, the trace of fewer ticks is its
beginning, and a track calls the same whatever other parts there are. -/
theorem trace_merges_tracks (p : Player) (n : Nat) :
    (p.trace n).value.Pairwise Trace.Event.Before ∧
    (∀ tick track call, ⟨tick, track, call⟩ ∈ (p.trace n).value ↔
      tick < n ∧ ∃ part tone, p.parts[track]? = some part ∧
        ((part.track.after p.bank tick).tick p.bank).outcome = .played tone ∧ tone.pack = call) ∧
    (∀ m ≤ n, (p.trace m).value <+: (p.trace n).value ∧
      (p.trace m).value = (p.trace n).value.filter (·.tick < m)) ∧
    ∀ q : Player, q.bank = p.bank → ∀ j k, q.parts[j]? = p.parts[k]? →
      Trace.ofTrack j (q.trace n).value = Trace.ofTrack k (p.trace n).value := by
  refine ⟨p.pairwise_trace n, fun tick track call => mem_trace, fun m hm => ?_, ?_⟩
  · exact ⟨p.trace_begins hm, p.trace_eq_filter hm⟩
  · intro q hbank j k hpart
    exact ofTrack_trace_congr hbank hpart n

/-- A part that calls in every tick makes the same calls after another one and alone. -/
theorem trace_merges_tracks_two_parts :
    let lead : Part := ⟨{}, #[33, 1, 0, 35, 0, 0], by decide, by decide⟩
    let bass : Part := ⟨{}, #[12, 0, 0], by decide, by decide⟩
    let p : Player := { config := {}, bank := .reference, parts := [lead, bass], accepted := rfl }
    let q : Player := { config := {}, bank := .reference, parts := [bass], accepted := rfl }
    (p.trace 3).value.map (fun e => (e.tick, e.track)) = [(0, 0), (0, 1), (1, 1), (2, 0), (2, 1)] ∧
      (p.trace 3).value.Pairwise Trace.Event.Before ∧ (p.trace 2).value <+: (p.trace 3).value ∧
      Trace.ofTrack 0 (q.trace 3).value = Trace.ofTrack 1 (p.trace 3).value := by
  intro lead bass p q
  obtain ⟨hsorted, _, hbegin, hcongr⟩ := trace_merges_tracks p 3
  exact ⟨by decide, hsorted, (hbegin 2 (by decide)).1, hcongr q rfl 0 1 rfl⟩

end Player

end Chiptune
