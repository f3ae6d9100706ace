import Chiptune.Proofs.Sequencer.History
import Chiptune.Proofs.Track.Heard
/-!
# Starting over

Nothing of what has been played is left by a reset. No operation changes the entries of a track or its ticks,
so a track that is reset is a new one over its entries; only its instrument and its volume are as they have
been set (`Track.restarts_reset`). A sequencer that is reset is a new one to which its tracks are added like
that (`reset_eq_operate_adds`), so it tells from there on what the new one tells.

Main statement `reset_forgets_history`.
-/
namespace Chiptune

namespace Track

variable {t u : Track}

/-- `fresh` is a new track over the entries of `t` and with its ticks; instrument and volume are those that
`u` has. -/
def Restarts (t u fresh : Track) : Prop :=
  (new t.data t.count).map (·.withSettings ⟨t.settings.ticks, u.settings.instrument, u.settings.volume⟩) =
    .ok fresh

theorem restarts_reset (ht : ∃ v, new t.data t.count = .ok v) (h : u.SameEntries t) :
    t.Restarts u u.reset := by
  obtain ⟨hcount, haddressed, hfits⟩ := exists_new_eq_ok_iff.1 ht
  have hreset : u.reset = ⟨t.data, t.count,
      ⟨t.settings.ticks, u.settings.instrument, u.settings.volume⟩, 0, 0, hfits, hcount⟩ := by
    refine Track.ext h.data h.count ?_ rfl rfl
    rw [← h.ticks]
    rfl
  rw [Restarts, new_eq_ok hcount haddressed hfits, hreset]
  rfl

end Track

namespace Sequencer

variable {capacity : Nat} {σ : Type} [Host σ]

/-- What the ticks of some operations tell: each tick with its number and its tones. -/
def told (s : Sequencer capacity × σ) : List Operation → List (Nat × List (Nat × Tone))
  | [] => []
  | op :: ops => (if op.isTick then [(s.1.ticks, s.1.tick.tones)] else []) ++ told (op.apply s) ops

/-- **A sequencer that is reset is a new one to which its tracks are added from their start.** -/
theorem reset_eq_operate_adds (s : Sequencer capacity) (host : σ) :
    (s.reset, host) = operate (new s.bank, host) (s.reset.tracks.map .add) := by
  have hroom : (new s.bank : Sequencer capacity).tracks.length + s.reset.tracks.length ≤ capacity := by
    rw [new, List.length_nil, Nat.zero_add]
    exact s.reset.fits
  rw [operate_adds _ host s.reset.tracks hroom]
  rfl

/-- **A reset forgets all history.** After any history of a new sequencer to which tracks have been added that
`Track.new` makes, a reset leaves what a new sequencer over the same sound bank is after adding new tracks:
each is made over the entries of the track that was added in this place and with its ticks, and has the
instrument and the volume that this track has by now. Ticks are counted from zero, and whatever is done later,
its ticks tell the same tones under the same numbers and leave the same sequencer and host. A track that is
reset on its own is such a new track as well, and shows the same from there on. -/
theorem reset_forgets_history (capacity : Nat) (bank : Soundbank) (host : σ) (ops : List Operation)
    (hmade : ∀ t, Operation.add t ∈ ops → ∃ v, Track.new t.data t.count = .ok v) :
    let s := (operate ((new bank : Sequencer capacity), host) ops).1
    (∃ fresh : List Track,
      fresh.length = s.tracks.length ∧
      (∀ (i : Nat) (u v : Track), s.tracks[i]? = some u → fresh[i]? = some v →
        ∃ before t since, ops = before ++ .add t :: since ∧ before.countP (·.isAdd) = i ∧ t.Restarts u v) ∧
      s.reset = (operate ((new bank : Sequencer capacity), host) (fresh.map .add)).1 ∧
      s.reset.ticks = 0 ∧
      ∀ (host' : σ) (later : List Operation),
        let renewed := (operate ((new bank : Sequencer capacity), host') (fresh.map .add)).1
        told (s.reset, host') later = told (renewed, host') later ∧
          operate (s.reset, host') later = operate (renewed, host') later) ∧
    ∀ t : Track, (∃ v, Track.new t.data t.count = .ok v) → ∀ before : List Track.Operation,
      let u := (Track.operate (t, host) before).1
      ∃ fresh, t.Restarts u fresh ∧ u.reset = fresh ∧ ∀ (host' : σ) (later : List Track.Operation),
        Track.observe (u.reset, host') later = Track.observe (fresh, host') later := by
  intro s
  have hbank : s.bank = bank := bank_operate _ ops
  have hrenewed (host' : σ) :
      s.reset = (operate ((new bank : Sequencer capacity), host') (s.reset.tracks.map .add)).1 := by
    have h := congrArg Prod.fst (reset_eq_operate_adds s host')
    rwa [hbank] at h
  refine ⟨⟨s.reset.tracks, List.length_map _, ?_, hrenewed host, rfl, ?_⟩, ?_⟩
  · intro i u v hu hv
    obtain ⟨-, before, t, since, hops, hbefore, rfl⟩ := (getElem?_tracks_iff host ops).1 hu
    have hv' : s.reset.tracks[i]? = s.tracks[i]?.map (·.reset) := List.getElem?_map
    rw [hv', hu] at hv
    obtain rfl := Option.some.inj hv
    refine ⟨before, t, since, hops, hbefore, ?_⟩
    exact Track.restarts_reset (hmade t (by simp [hops])) (Track.operate_sameEntries _ _)
  · intro host' later renewed
    have h : s.reset = renewed := hrenewed host'
    rw [h]
    exact ⟨rfl, rfl⟩
  · intro t ht before u
    have hu : u.SameEntries t := Track.operate_sameEntries (t, host) before
    exact ⟨u.reset, Track.restarts_reset ht hu, rfl, fun host' later => rfl⟩

/-- Two tracks, the second one added halfway; the volume of the first and the instrument of the second are set
while they play. -/
theorem reset_forgets_history_two_tracks :
    let lead : Track := ⟨#[33, 1, 0, 35, 1, 0], 2, ⟨3, 0, 100⟩, 0, 0, by decide, by decide⟩
    let bass : Track := ⟨#[12, 2, 0, 14, 0, 0], 2, {}, 1, 2, by decide, by decide⟩
    let ops : List Operation :=
      [.add lead, .tick, .add bass, .play, .aim 0 (.setVolume 7), .aim 1 (.setInstrument 4), .tick]
    let s := (operate ((new .reference : Sequencer 4), Silence.mk) ops).1
    s.ticks = 3 ∧ s.reset.ticks = 0 ∧
      (∃ fresh : List Track, fresh.length = 2 ∧
        s.reset = (operate ((new .reference : Sequencer 4), Silence.mk) (fresh.map .add)).1) ∧
      ∃ fresh, bass.Restarts (bass.alone [.tick .reference, .setInstrument 4]) fresh ∧
        (bass.alone [.tick .reference, .setInstrument 4]).reset = fresh := by
  intro lead bass ops s
  have hlead : Track.new lead.data lead.count = .ok (lead.reset.withSettings {}) :=
    Track.new_eq_ok (by decide) (by decide) (by decide)
  have hbass : Track.new bass.data bass.count = .ok (bass.reset.withSettings {}) :=
    Track.new_eq_ok (by decide) (by decide) (by decide)
  have hmade : ∀ t, Operation.add t ∈ ops → ∃ v, Track.new t.data t.count = .ok v := by
    intro t ht
    simp only [ops, List.mem_cons, Operation.add.injEq, reduceCtorEq, false_or, or_false,
      List.not_mem_nil] at ht
    rcases ht with rfl | rfl
    · exact ⟨_, hlead⟩
    · exact ⟨_, hbass⟩
  obtain ⟨⟨fresh, hlength, htracks, hreset, hticks, -⟩, halone⟩ :=
    reset_forgets_history 4 .reference Silence.mk ops hmade
  obtain ⟨restarted, hrestarts, hrestarted, -⟩ := halone bass ⟨_, hbass⟩ [.tick .reference, .setInstrument 4]
  exact ⟨rfl, hticks, ⟨fresh, hlength, hreset⟩, restarted, hrestarts, hrestarted⟩

end Sequencer

end Chiptune
