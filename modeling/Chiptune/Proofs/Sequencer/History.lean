import Mathlib.Data.List.Induction
import Chiptune.Player
import Chiptune.Proofs.Sequencer
/-!
# Histories of a sequencer

A history is a list of operations on a sequencer, in any order: tracks join, ticks pass, everything is
reset, and single tracks are operated on by their index. To one track each of these is an operation of its
own or nothing (`Operation.toTrack`), and the track goes through them as it would alone: for one operation
`getElem?_tracks_apply`, for a history `getElem?_tracks_operate`. Every track has been added at some point
(`exists_add`), so this says what each of them is (`getElem?_tracks_iff`). The sequencer of a player comes
about in this way (`operate_parts`).

Main statement `tracks_stay_apart`.
-/
namespace Chiptune

namespace Track

variable {σ τ : Type} [Host σ] [Host τ]

/-- The track after operations on it alone, with nobody listening. -/
def alone (t : Track) (ops : List Operation) : Track := (operate (t, Silence.mk) ops).1

theorem apply_fst (op : Operation) (t : Track) (host : σ) (other : τ) :
    (op.apply (t, host)).1 = (op.apply (t, other)).1 := by
  cases op with
  | play bank => rw [Operation.apply, Operation.apply, play_fst, play_fst]
  | _ => rfl

end Track

namespace Sequencer

variable {capacity : Nat} {σ : Type} [Host σ]

/-- Something done to a sequencer, with a host at hand. -/
inductive Operation where
  | add (t : Track)
  /-- A tick that leaves the host alone. -/
  | tick
  /-- A tick whose tones are requested from the host. -/
  | play
  | reset
  /-- An operation on the track at an index, if there is one. -/
  | aim (index : Nat) (op : Track.Operation)

namespace Operation

/-- The sequencer and the host after an operation. -/
def apply (s : Sequencer capacity × σ) : Operation → Sequencer capacity × σ
  | .add t => ((s.1.add t).2, s.2)
  | .tick => (s.1.tick.sequencer, s.2)
  | .play => ((s.1.play s.2).1.sequencer, (s.1.play s.2).2)
  | .reset => (s.1.reset, s.2)
  | .aim index op =>
    match s.1.tracks[index]? with
    | some t => (s.1.modify index fun t => (op.apply (t, s.2)).1, (op.apply (t, s.2)).2)
    | none => s

/-- What an operation is to track `i`. -/
def toTrack (bank : Soundbank) (i : Nat) : Operation → Option Track.Operation
  | .add _ => none
  | .tick | .play => some (.tick bank)
  | .reset => some .reset
  | .aim index op => if index = i then some op else none

def isAdd : Operation → Bool
  | .add _ => true
  | .tick | .play | .reset | .aim .. => false

def isTick : Operation → Bool
  | .tick | .play => true
  | .add _ | .reset | .aim .. => false

def isReset : Operation → Bool
  | .reset => true
  | .add _ | .tick | .play | .aim .. => false

end Operation

/-- The sequencer and the host after a history, the first operation first. -/
def operate (s : Sequencer capacity × σ) (ops : List Operation) : Sequencer capacity × σ :=
  ops.foldl Operation.apply s

/-- The ticks of a history since its last reset. -/
def ticksSinceReset (ops : List Operation) : Nat :=
  (ops.reverse.takeWhile fun op => !op.isReset).countP (·.isTick)

/-- Track `i` of a history on its own: the track added after `i` others, and then operated on as the history
does from there. -/
def IsSolo (bank : Soundbank) (ops : List Operation) (i : Nat) (u : Track) : Prop :=
  ∃ before t since, ops = before ++ .add t :: since ∧ before.countP (·.isAdd) = i ∧
    u = t.alone (since.filterMap (·.toTrack bank i))

variable {s : Sequencer capacity} {t u : Track} {index i : Nat}

/-! ## One operation -/

theorem add_of_lt (h : s.tracks.length < capacity) :
    s.add t = (.ok s.tracks.length,
      { s with tracks := s.tracks ++ [t], fits := by rw [List.length_append]; exact h }) := by
  simp [add, add?, h]

theorem add_of_full (h : capacity ≤ s.tracks.length) : s.add t = (.error t, s) := by
  simp [add, add?, Nat.not_lt.2 h]

theorem length_tracks_add (s : Sequencer capacity) (t : Track) :
    (s.add t).2.tracks.length = min capacity (s.tracks.length + 1) := by
  have hfits := s.fits
  by_cases h : s.tracks.length < capacity
  · rw [add_of_lt h, List.length_append, List.length_singleton]
    omega
  · have hfull : capacity ≤ s.tracks.length := Nat.not_lt.1 h
    rw [add_of_full hfull]
    show s.tracks.length = min capacity (s.tracks.length + 1)
    omega

/-- Adding a track changes nothing of what is there. -/
theorem add_frame (s : Sequencer capacity) (t : Track) :
    (s.add t).2.bank = s.bank ∧ (s.add t).2.ticks = s.ticks ∧ s.tracks <+: (s.add t).2.tracks := by
  by_cases h : s.tracks.length < capacity
  · rw [add_of_lt h]
    exact ⟨rfl, rfl, List.prefix_append _ _⟩
  · rw [add_of_full (Nat.not_lt.1 h)]
    exact ⟨rfl, rfl, List.prefix_rfl⟩

theorem aim_of_missing (op : Track.Operation) (host : σ) (h : s.tracks.length ≤ index) :
    (Operation.aim index op).apply (s, host) = (s, host) := by
  simp [Operation.apply, h]

/-- An operation on one track is that operation on the list of tracks. -/
theorem tracks_aim (op : Track.Operation) (host : σ) :
    ((Operation.aim index op).apply (s, host)).1.tracks =
      s.tracks.modify index fun t => t.alone [op] := by
  rw [Operation.apply]
  split
  · refine congrArg (s.tracks.modify index) (funext fun t => ?_)
    exact Track.apply_fst op t host Silence.mk
  · rename_i hnone
    exact (List.modify_eq_self (List.getElem?_eq_none_iff.1 hnone)).symm

theorem getElem?_tracks_aim_of_ne (op : Track.Operation) (host : σ) (h : index ≠ i) :
    ((Operation.aim index op).apply (s, host)).1.tracks[i]? = s.tracks[i]? := by
  rw [tracks_aim, List.getElem?_modify]
  simp [h]

theorem bank_apply (op : Operation) (s : Sequencer capacity × σ) : (op.apply s).1.bank = s.1.bank := by
  cases op with
  | add t => exact (add_frame s.1 t).1
  | aim index op =>
    rw [Operation.apply]
    split <;> rfl
  | tick => rfl
  | play => rfl
  | reset => rfl

theorem length_tracks_apply (op : Operation) (s : Sequencer capacity × σ) :
    (op.apply s).1.tracks.length = min capacity (s.1.tracks.length + if op.isAdd then 1 else 0) := by
  have hfits := s.1.fits
  cases op with
  | add t => exact length_tracks_add s.1 t
  | tick => simp [Operation.apply, Operation.isAdd, tick, steps, hfits]
  | play => simp [Operation.apply, Operation.isAdd, play, tick, steps, hfits]
  | reset => simp [Operation.apply, Operation.isAdd, reset, hfits]
  | aim index op =>
    obtain ⟨s, host⟩ := s
    simp [tracks_aim, Operation.isAdd, (hfits : s.tracks.length ≤ capacity)]

theorem getElem?_tracks_tick (s : Sequencer capacity) (i : Nat) :
    s.tick.sequencer.tracks[i]? = s.tracks[i]?.map fun t => t.alone [.tick s.bank] := by
  show (s.steps.map (·.track))[i]? = _
  rw [steps, List.map_map, List.getElem?_map]
  rfl

/-- **To a track in the sequencer, an operation is what it is to that track alone.** -/
theorem getElem?_tracks_apply (op : Operation) (s : Sequencer capacity × σ)
    (hi : i < s.1.tracks.length) :
    (op.apply s).1.tracks[i]? =
      s.1.tracks[i]?.map fun t => t.alone (op.toTrack s.1.bank i).toList := by
  cases op with
  | add t =>
    obtain ⟨new, hnew⟩ := (add_frame s.1 t).2.2
    have hadd : (s.1.add t).2.tracks[i]? = s.1.tracks[i]? := by
      rw [← hnew, List.getElem?_append_left hi]
    exact hadd.trans Option.map_id'.symm
  | tick => exact getElem?_tracks_tick s.1 i
  | play => exact getElem?_tracks_tick s.1 i
  | reset => exact List.getElem?_map
  | aim index op =>
    obtain ⟨s, host⟩ := s
    by_cases h : index = i
    · subst h
      rw [tracks_aim, List.getElem?_modify_eq, Operation.toTrack, if_pos rfl]
      rfl
    · rw [getElem?_tracks_aim_of_ne op host h, Operation.toTrack, if_neg h]
      exact Option.map_id'.symm

theorem ticks_apply (op : Operation) (s : Sequencer capacity × σ) :
    (op.apply s).1.ticks = if op.isReset then 0 else s.1.ticks + if op.isTick then 1 else 0 := by
  cases op with
  | add t => exact (add_frame s.1 t).2.1
  | aim index op =>
    rw [Operation.apply]
    split <;> rfl
  | tick => rfl
  | play => rfl
  | reset => rfl

/-! ## Histories -/

theorem operate_cons (s : Sequencer capacity × σ) (op : Operation) (ops : List Operation) :
    operate s (op :: ops) = operate (op.apply s) ops := rfl

theorem operate_append (s : Sequencer capacity × σ) (before since : List Operation) :
    operate s (before ++ since) = operate (operate s before) since := List.foldl_append

theorem bank_operate (s : Sequencer capacity × σ) (ops : List Operation) :
    (operate s ops).1.bank = s.1.bank := by
  induction ops generalizing s with
  | nil => rfl
  | cons op ops ih => rw [operate_cons, ih, bank_apply]

/-- A sequencer has the tracks that have been added, up to its capacity. -/
theorem length_tracks_operate (s : Sequencer capacity × σ) (ops : List Operation) :
    (operate s ops).1.tracks.length = min capacity (s.1.tracks.length + ops.countP (·.isAdd)) := by
  induction ops generalizing s with
  | nil => exact (Nat.min_eq_right s.1.fits).symm
  | cons op ops ih =>
    rw [operate_cons, ih, length_tracks_apply, List.countP_cons]
    omega

/-- **A track goes through a history as it would alone.** -/
theorem getElem?_tracks_operate (s : Sequencer capacity × σ) (ops : List Operation)
    (hi : i < s.1.tracks.length) :
    (operate s ops).1.tracks[i]? =
      s.1.tracks[i]?.map fun t => t.alone (ops.filterMap (·.toTrack s.1.bank i)) := by
  induction ops generalizing s with
  | nil => exact Option.map_id'.symm
  | cons op ops ih =>
    have hi' : i < (op.apply s).1.tracks.length := by
      have := length_tracks_apply op s
      have := s.1.fits
      omega
    rw [operate_cons, ih _ hi', getElem?_tracks_apply op s hi, bank_apply, Option.map_map]
    refine congrArg (s.1.tracks[i]?.map ·) (funext fun t => ?_)
    rw [List.filterMap_cons]
    cases op.toTrack s.1.bank i <;> rfl

theorem ticks_operate (s : Sequencer capacity × σ) (hs : s.1.ticks = 0) (ops : List Operation) :
    (operate s ops).1.ticks = ticksSinceReset ops := by
  induction ops using List.reverseRecOn with
  | nil => exact hs
  | append_singleton ops op ih =>
    have hlast : operate s (ops ++ [op]) = op.apply (operate s ops) := operate_append s ops [op]
    rw [hlast, ticks_apply, ih, ticksSinceReset, ticksSinceReset, List.reverse_concat,
      List.takeWhile_cons]
    cases op.isReset with
    | true => rfl
    | false => exact List.countP_cons.symm

/-! ## Tracks on their own -/

/-- Among the tracks added there is one that was added after `i` others, if there are enough of them. -/
theorem exists_add {ops : List Operation} (hi : i < ops.countP (·.isAdd)) :
    ∃ before t since, ops = before ++ .add t :: since ∧ before.countP (·.isAdd) = i := by
  induction ops generalizing i with
  | nil => cases hi
  | cons op ops ih =>
    cases hop : op.isAdd with
    | true =>
      obtain ⟨t, rfl⟩ : ∃ t, op = .add t := by
        cases op <;> first | exact ⟨_, rfl⟩ | cases hop
      cases i with
      | zero => exact ⟨[], t, ops, rfl, rfl⟩
      | succ i =>
        rw [List.countP_cons_of_pos hop] at hi
        obtain ⟨before, u, since, rfl, rfl⟩ := ih (Nat.lt_of_succ_lt_succ hi)
        exact ⟨.add t :: before, u, since, rfl, List.countP_cons_of_pos hop⟩
    | false =>
      have hneg : ¬ op.isAdd = true := by simp [hop]
      rw [List.countP_cons_of_neg hneg] at hi
      obtain ⟨before, u, since, rfl, rfl⟩ := ih hi
      exact ⟨op :: before, u, since, rfl, List.countP_cons_of_neg hneg⟩

theorem getElem?_tracks_of_isSolo {bank : Soundbank} {ops : List Operation} (host : σ)
    (hi : i < capacity) (h : IsSolo bank ops i u) :
    (operate ((new bank : Sequencer capacity), host) ops).1.tracks[i]? = some u := by
  obtain ⟨before, t, since, rfl, rfl, rfl⟩ := h
  have hbank := bank_operate ((new bank : Sequencer capacity), host) before
  have hlength := length_tracks_operate ((new bank : Sequencer capacity), host) before
  rw [operate_append]
  -- From here on only the bank and the number of tracks matter of what came before.
  generalize operate ((new bank : Sequencer capacity), host) before = s at hbank hlength ⊢
  have hlength : s.1.tracks.length = before.countP (·.isAdd) := by
    rw [hlength, new, List.length_nil, Nat.zero_add, Nat.min_eq_right (Nat.le_of_lt hi)]
  rw [← hlength] at hi ⊢
  rw [operate_cons, Operation.apply, add_of_lt hi, getElem?_tracks_operate _ _ (by simp), hbank,
    List.getElem?_concat_length]
  rfl

theorem getElem?_tracks_iff {bank : Soundbank} (host : σ) (ops : List Operation) :
    (operate ((new bank : Sequencer capacity), host) ops).1.tracks[i]? = some u ↔
      i < capacity ∧ IsSolo bank ops i u := by
  constructor
  · intro h
    have hlength := (List.getElem?_eq_some_iff.1 h).1
    rw [length_tracks_operate, new, List.length_nil, Nat.zero_add] at hlength
    have hi : i < capacity := by omega
    obtain ⟨before, t, since, hops, hcount⟩ := exists_add (by omega : i < ops.countP (·.isAdd))
    have hsolo : IsSolo bank ops i _ := ⟨before, t, since, hops, hcount, rfl⟩
    rw [getElem?_tracks_of_isSolo host hi hsolo] at h
    exact ⟨hi, Option.some.inj h ▸ hsolo⟩
  · rintro ⟨hi, hsolo⟩
    exact getElem?_tracks_of_isSolo host hi hsolo

/-- **Tracks do not touch each other.** After any history of a new sequencer a track is what it is on its
own: ticked once for each tick since it was added, reset with every reset since then, and operated on as was
aimed at it, in that order. What is aimed at one index leaves the other tracks alone, and everything if no
track has the index. A track is added behind the others or handed back, so that there are `capacity` of them
at most. Ticks are counted from the last reset. A tick tells each tone that a track plays on its own, one for
a track at most and in the order of the tracks, and a host takes the calls in this order. -/
theorem tracks_stay_apart (capacity : Nat) (bank : Soundbank) (host : σ) (ops : List Operation) :
    let s := (operate ((new bank : Sequencer capacity), host) ops).1
    (∀ i u, s.tracks[i]? = some u ↔ i < capacity ∧ IsSolo bank ops i u) ∧
    (∀ index op (host : σ),
      (∀ i, index ≠ i →
        ((Operation.aim index op).apply (s, host)).1.tracks[i]? = s.tracks[i]?) ∧
      (s.tracks.length ≤ index → (Operation.aim index op).apply (s, host) = (s, host))) ∧
    (∀ t, (s.tracks.length < capacity → (s.add t).1 = .ok s.tracks.length ∧
        (s.add t).2.tracks = s.tracks ++ [t] ∧ (s.add t).2.bank = s.bank ∧ (s.add t).2.ticks = s.ticks) ∧
      (capacity ≤ s.tracks.length → s.add t = (.error t, s))) ∧
    s.tracks.length = min capacity (ops.countP (·.isAdd)) ∧
    s.bank = bank ∧
    s.ticks = ticksSinceReset ops ∧
    s.tick.tones.Pairwise (fun x y => x.1 < y.1) ∧
    (∀ k tone, (k, tone) ∈ s.tick.tones ↔
      k < capacity ∧ ∃ u, IsSolo bank ops k u ∧ (u.tick bank).outcome = .played tone) ∧
    ∀ host : σ, s.play host = (s.tick, (s.tick.tones.map fun tone => tone.2.pack).foldl Host.call host) := by
  intro s
  have hbank : s.bank = bank := bank_operate _ ops
  have htracks : ∀ i u, s.tracks[i]? = some u ↔ i < capacity ∧ IsSolo bank ops i u :=
    fun i u => getElem?_tracks_iff host ops
  refine ⟨htracks, ?_, ?_, ?_, hbank, ticks_operate _ rfl ops, pairwise_tonesFrom 0 s.steps, ?_, ?_⟩
  · intro index op host
    exact ⟨fun i hi => getElem?_tracks_aim_of_ne op host hi, fun h => aim_of_missing op host h⟩
  · intro t
    obtain ⟨hbank, hticks, -⟩ := add_frame s t
    refine ⟨fun h => ?_, add_of_full⟩
    exact ⟨congrArg Prod.fst (add_of_lt h), congrArg (·.2.tracks) (add_of_lt h), hbank, hticks⟩
  · have hlength := length_tracks_operate ((new bank : Sequencer capacity), host) ops
    rwa [new, List.length_nil, Nat.zero_add] at hlength
  · intro k tone
    rw [mem_tick_tones, hbank]
    constructor
    · rintro ⟨u, hu, hplayed⟩
      obtain ⟨hk, hsolo⟩ := (htracks k u).1 hu
      exact ⟨hk, u, hsolo, hplayed⟩
    · rintro ⟨hk, u, hsolo, hplayed⟩
      exact ⟨u, (htracks k u).2 ⟨hk, hsolo⟩, hplayed⟩
  · intro host
    rw [play, List.foldl_map]
    rfl

/-- A track that joins late, in a sequencer of two: it goes through what came after it, with the reset and
without what is aimed elsewhere, and a third track is handed back. -/
theorem tracks_stay_apart_late_track :
    let lead : Track := ⟨#[33, 1, 0, 35, 1, 0], 2, {}, 0, 0, by decide, by decide⟩
    let bass : Track := ⟨#[12, 2, 0], 1, {}, 0, 0, by decide, by decide⟩
    let ops : List Operation :=
      [.add lead, .tick, .add bass, .play, .aim 0 (.setVolume 7), .aim 2 .reset, .reset, .tick]
    let s := (operate ((new .reference : Sequencer 2), Silence.mk) ops).1
    s.tracks[1]? = some (bass.alone [.tick .reference, .reset, .tick .reference]) ∧
      s.add lead = (.error lead, s) ∧ s.ticks = 1 := by
  intro lead bass ops s
  obtain ⟨htracks, _, hadd, hlength, _, hticks, _⟩ :=
    tracks_stay_apart 2 .reference Silence.mk ops
  refine ⟨(htracks 1 _).2 ⟨by decide, [.add lead, .tick], bass, _, rfl, rfl, rfl⟩, (hadd lead).2 ?_, ?_⟩
  · rw [hlength]
    decide
  · rw [hticks]
    decide

/-! ## The sequencer of a player -/

/-- Tracks that all find room are added in order. -/
theorem operate_adds (s : Sequencer capacity) (host : σ) (ts : List Track)
    (h : s.tracks.length + ts.length ≤ capacity) :
    operate (s, host) (ts.map .add) =
      ({ s with tracks := s.tracks ++ ts, fits := by rwa [List.length_append] }, host) := by
  induction ts generalizing s with
  | nil => simp [operate]
  | cons t ts ih =>
    have hroom : s.tracks.length + (ts.length + 1) ≤ capacity := h
    have ht : (Operation.add t).apply (s, host) = ((s.add t).2, host) := rfl
    rw [List.map_cons, operate_cons, ht, add_of_lt (by omega), ih _ (by simp; omega)]
    simp

/-- A player's sequencer is made by adding its parts, and none of them is handed back. -/
theorem operate_parts (p : Player) (host : σ) :
    operate (new p.bank, host) (p.parts.map fun part => .add part.track) = (p.sequencer, host) := by
  have h := operate_adds (new p.bank : Sequencer maxParts) host (p.parts.map (·.track))
    (by simpa [new] using p.fits)
  rwa [List.map_map] at h

end Sequencer

end Chiptune
