import Mathlib.Logic.Function.Basic
import Chiptune.Proofs.Sequencer.History
/-!
# Routes of a tick

A tick is taken on one of several routes: nobody hears it, or its tones are requested from one of some hosts,
which may be of different kinds. A track is ticked on its own or by its sequencer. All of this is one machine.
In any mixture of routes each track goes through its ticks as it does unheard (`Track.ride_fst`,
`Sequencer.drive_fst`), and each host takes the calls of the ticks that it hears, in order (`Track.ride_snd`,
`Sequencer.drive_snd`).

Main statement `routes_are_one_machine`.
-/
namespace Chiptune

variable {ι : Type} {σ : ι → Type}

/-- How a tick is taken. -/
inductive Route (ι : Type) where
  | unheard
  /-- The tones of the tick are requested from host `i`. -/
  | heard (i : ι)
deriving DecidableEq

/-- The call that host `i` takes from a track: what the track did, and the route it was ticked on. -/
def Route.call? [DecidableEq ι] (i : ι) (reported : Route ι × Outcome) : Option HostCall :=
  if reported.1 = .heard i then reported.2.tone?.map Tone.pack else none

section
variable [∀ i, Host (σ i)] [DecidableEq ι]

/-- Of some hosts, one has taken calls and the others have taken none. -/
theorem update_foldl_call (hosts : ∀ i, σ i) (i j : ι) (calls : List HostCall) :
    Function.update hosts i (calls.foldl Host.call (hosts i)) j =
      (if Route.heard i = .heard j then calls else []).foldl Host.call (hosts j) := by
  by_cases h : j = i
  · subst h
    rw [Function.update_self, if_pos rfl]
  · rw [Function.update_of_ne h, if_neg fun heq => h (Route.heard.inj heq).symm]
    rfl

end

/-! ## Ticks of a track -/

namespace Track

/-- The track after ticks over sound banks, one after the other. -/
def through (t : Track) (banks : List Soundbank) : Track := banks.foldl (fun t bank => (t.tick bank).track) t

/-- What ticks over sound banks do, one after the other. -/
def outcomes (t : Track) : List Soundbank → List Outcome
  | [] => []
  | bank :: banks => (t.tick bank).outcome :: (t.tick bank).track.outcomes banks

variable [∀ i, Host (σ i)] [DecidableEq ι]

/-- A tick on a route: what it did, and the hosts afterwards. -/
def tickOn (s : Track × ∀ i, σ i) (bank : Soundbank) : Route ι → Step × ∀ i, σ i
  | .unheard => (s.1.tick bank, s.2)
  | .heard i => ((s.1.play bank (s.2 i)).1, Function.update s.2 i (s.1.play bank (s.2 i)).2)

/-- The track and the hosts after a tick on a route. -/
def follow (s : Track × ∀ i, σ i) (x : Soundbank × Route ι) : Track × ∀ i, σ i :=
  ((tickOn s x.1 x.2).1.track, (tickOn s x.1 x.2).2)

/-- The track and the hosts after ticks on their routes, the first one first. -/
def ride (s : Track × ∀ i, σ i) (xs : List (Soundbank × Route ι)) : Track × ∀ i, σ i := xs.foldl follow s

/-- What ticks on their routes do, the first one first. -/
def reported (s : Track × ∀ i, σ i) : List (Soundbank × Route ι) → List (Route ι × Outcome)
  | [] => []
  | x :: xs => (x.2, (tickOn s x.1 x.2).1.outcome) :: reported (follow s x) xs

/-- **On every route a tick does the same.** -/
theorem tickOn_fst (s : Track × ∀ i, σ i) (bank : Soundbank) (route : Route ι) :
    (tickOn s bank route).1 = s.1.tick bank := by
  cases route with
  | unheard => rfl
  | heard i => exact play_fst s.1 bank (s.2 i)

/-- **A host takes the call of a tick that it hears**, and no other. -/
theorem tickOn_snd (s : Track × ∀ i, σ i) (bank : Soundbank) (route : Route ι) (i : ι) :
    (tickOn s bank route).2 i =
      (Route.call? i (route, (s.1.tick bank).outcome)).toList.foldl Host.call (s.2 i) := by
  cases route with
  | unheard => rfl
  | heard j =>
    have hcalls : (s.1.play bank (s.2 j)).2 =
        ((s.1.tick bank).outcome.tone?.map Tone.pack).toList.foldl Host.call (s.2 j) := by
      rw [play_snd]
      cases (s.1.tick bank).outcome.tone? <;> rfl
    simp only [tickOn, hcalls, update_foldl_call, Route.call?]
    split <;> rfl

theorem follow_fst (s : Track × ∀ i, σ i) (x : Soundbank × Route ι) :
    (follow s x).1 = (s.1.tick x.1).track := by
  rw [follow, tickOn_fst]

/-- **Any routes lead where the ticks do that nobody hears.** -/
theorem ride_fst (s : Track × ∀ i, σ i) (xs : List (Soundbank × Route ι)) :
    (ride s xs).1 = s.1.through (xs.map (·.1)) := by
  induction xs generalizing s with
  | nil => rfl
  | cons x xs ih =>
    have hrest := ih (follow s x)
    rwa [follow_fst] at hrest

theorem map_reported (s : Track × ∀ i, σ i) (xs : List (Soundbank × Route ι)) :
    (reported s xs).map (·.2) = s.1.outcomes (xs.map (·.1)) := by
  induction xs generalizing s with
  | nil => rfl
  | cons x xs ih => rw [reported, List.map_cons, ih, follow_fst, tickOn_fst, List.map_cons, outcomes]

/-- **Each host takes the calls of the ticks that it hears.** -/
theorem ride_snd (s : Track × ∀ i, σ i) (xs : List (Soundbank × Route ι)) (i : ι) :
    (ride s xs).2 i = ((reported s xs).filterMap (Route.call? i)).foldl Host.call (s.2 i) := by
  induction xs generalizing s with
  | nil => rfl
  | cons x xs ih =>
    have hfirst : (follow s x).2 i = _ := tickOn_snd s x.1 x.2 i
    have hrest : (ride s (x :: xs)).2 i = _ := ih (follow s x)
    rw [hrest, hfirst, reported, tickOn_fst, List.filterMap_cons]
    cases Route.call? i (x.2, (s.1.tick x.1).outcome) <;> rfl

end Track

/-! ## Ticks of a sequencer -/

namespace Sequencer

variable {capacity : Nat}

/-- The tones of a tick are those of its steps, with the numbers of the tracks. -/
theorem tonesFrom_eq_filterMap (index : Nat) (steps : List Step) :
    tonesFrom index steps = (steps.zipIdx index).filterMap fun x => x.1.outcome.tone?.map (x.2, ·) := by
  induction steps generalizing index with
  | nil => rfl
  | cons step rest ih =>
    rw [tonesFrom_cons, ih, List.zipIdx_cons, List.filterMap_cons]
    cases step.outcome.tone? <;> rfl

theorem tones_tick (s : Sequencer capacity) :
    s.tick.tones = s.tracks.zipIdx.filterMap fun x => (x.1.tick s.bank).outcome.tone?.map (x.2, ·) := by
  have htones : s.tick.tones = tonesFrom 0 (s.tracks.map (·.tick s.bank)) := rfl
  rw [htones, tonesFrom_eq_filterMap, List.zipIdx_map, List.filterMap_map]
  rfl

theorem filterMap_zipIdx_fst {α β : Type} (f : α → Option β) (l : List α) (n : Nat) :
    ((l.zipIdx n).filterMap fun x => f x.1) = l.filterMap f := by
  have h := congrArg (List.filterMap f) (List.zipIdx_map_fst n l)
  rwa [List.filterMap_map] at h

/-- The calls of a tick are those of its steps. -/
theorem map_tonesFrom (index : Nat) (steps : List Step) :
    ((tonesFrom index steps).map fun x => x.2.pack) = steps.filterMap fun step => step.outcome.tone?.map Tone.pack := by
  rw [tonesFrom_eq_filterMap, List.map_filterMap, ← filterMap_zipIdx_fst _ steps index]
  refine congrArg (List.filterMap · _) (funext fun x => ?_)
  cases x.1.outcome.tone? <;> rfl

/-- Ticks of the tracks of a sequencer. -/
inductive Stepping (ι : Type) where
  /-- A tick of all tracks. -/
  | all (route : Route ι)
  /-- A tick of one track alone, over a sound bank of its own. -/
  | one (index : Nat) (bank : Soundbank) (route : Route ι)

namespace Stepping

/-- The same ticks as operations that nobody hears. -/
def unheard : Stepping ι → Operation
  | all _ => .tick
  | one index bank _ => .aim index (.tick bank)

/-- The sound bank over which track `k` is ticked, if it is. -/
def bank? (bank : Soundbank) (k : Nat) : Stepping ι → Option Soundbank
  | all _ => some bank
  | one index own _ => if index = k then some own else none

end Stepping

/-- What track `k` did, of all that is reported. -/
def outcomesOf (k : Nat) (reported : List (Nat × Route ι × Outcome)) : List Outcome :=
  reported.filterMap fun x => if x.1 = k then some x.2.2 else none

variable [∀ i, Host (σ i)] [DecidableEq ι]

/-- A tick on a route, and the hosts afterwards. -/
def tickOn (s : Sequencer capacity × ∀ i, σ i) : Route ι → Tick capacity × ∀ i, σ i
  | .unheard => (s.1.tick, s.2)
  | .heard i => ((s.1.play (s.2 i)).1, Function.update s.2 i (s.1.play (s.2 i)).2)

/-- The sequencer and the hosts after ticks of its tracks. -/
def Stepping.apply (s : Sequencer capacity × ∀ i, σ i) : Stepping ι → Sequencer capacity × ∀ i, σ i
  | .all route => ((tickOn s route).1.sequencer, (tickOn s route).2)
  | .one index bank route =>
    match s.1.tracks[index]? with
    | some t => (s.1.modify index fun t => (Track.tickOn (t, s.2) bank route).1.track,
        (Track.tickOn (t, s.2) bank route).2)
    | none => s

/-- What each track did, in the order of the tracks. -/
def Stepping.reported (s : Sequencer capacity × ∀ i, σ i) : Stepping ι → List (Nat × Route ι × Outcome)
  | .all route => s.1.steps.zipIdx.map fun x => (x.2, route, x.1.outcome)
  | .one index bank route =>
    (s.1.tracks[index]?.map fun t => (index, route, (Track.tickOn (t, s.2) bank route).1.outcome)).toList

/-- The sequencer and the hosts after ticks on their routes, the first ones first. -/
def drive (s : Sequencer capacity × ∀ i, σ i) (xs : List (Stepping ι)) : Sequencer capacity × ∀ i, σ i :=
  xs.foldl Stepping.apply s

/-- What the tracks did in ticks on their routes, the first ones first. -/
def reported (s : Sequencer capacity × ∀ i, σ i) : List (Stepping ι) → List (Nat × Route ι × Outcome)
  | [] => []
  | x :: xs => x.reported s ++ reported (x.apply s) xs

/-! ### Where the tracks stand -/

theorem tickOn_fst (s : Sequencer capacity × ∀ i, σ i) (route : Route ι) : (tickOn s route).1 = s.1.tick := by
  cases route <;> rfl

theorem apply_fst (s : Sequencer capacity × ∀ i, σ i) (x : Stepping ι) :
    (x.apply s).1 = (x.unheard.apply (s.1, Silence.mk)).1 := by
  cases x with
  | all route => rw [Stepping.apply, tickOn_fst, Stepping.unheard, Operation.apply]
  | one index bank route =>
    cases htrack : s.1.tracks[index]? with
    | none => simp only [Stepping.apply, Stepping.unheard, Operation.apply, htrack]
    | some t =>
      simp only [Stepping.apply, Stepping.unheard, Operation.apply, htrack, Track.tickOn_fst]
      rfl

/-- **Any routes lead where the same ticks do that nobody hears.** -/
theorem drive_fst (s : Sequencer capacity × ∀ i, σ i) (xs : List (Stepping ι)) :
    (drive s xs).1 = (operate (s.1, Silence.mk) (xs.map (·.unheard))).1 := by
  induction xs generalizing s with
  | nil => rfl
  | cons x xs ih =>
    have hfirst : ((x.apply s).1, Silence.mk) = x.unheard.apply (s.1, Silence.mk) := Prod.ext (apply_fst s x) rfl
    have hrest : (drive s (x :: xs)).1 = _ := ih (x.apply s)
    rw [hrest, hfirst, List.map_cons, operate_cons]

theorem bank_apply_stepping (s : Sequencer capacity × ∀ i, σ i) (x : Stepping ι) : (x.apply s).1.bank = s.1.bank := by
  rw [apply_fst, bank_apply]

theorem getElem?_tracks_stepping (s : Sequencer capacity × ∀ i, σ i) (x : Stepping ι) (k : Nat) :
    (x.apply s).1.tracks[k]? = s.1.tracks[k]?.map (·.through (x.bank? s.1.bank k).toList) := by
  rw [apply_fst]
  cases x with
  | all route => exact getElem?_tracks_tick s.1 k
  | one index bank route =>
    rw [Stepping.unheard, tracks_aim, List.getElem?_modify, Stepping.bank?]
    refine congrArg (s.1.tracks[k]?.map ·) (funext fun t => ?_)
    split <;> rfl

/-- **A track stands where its ticks leave it**, whoever hears them and whatever other tracks do. -/
theorem getElem?_tracks_drive (s : Sequencer capacity × ∀ i, σ i) (xs : List (Stepping ι)) (k : Nat) :
    (drive s xs).1.tracks[k]? = s.1.tracks[k]?.map (·.through (xs.filterMap (·.bank? s.1.bank k))) := by
  induction xs generalizing s with
  | nil => exact Option.map_id'.symm
  | cons x xs ih =>
    have hrest : (drive s (x :: xs)).1.tracks[k]? = _ := ih (x.apply s)
    -- The sound bank stays, so the later ticks of the track are picked as they would be at the start.
    rw [hrest, getElem?_tracks_stepping, bank_apply_stepping, Option.map_map]
    refine congrArg (s.1.tracks[k]?.map ·) (funext fun t => ?_)
    rw [List.filterMap_cons]
    cases x.bank? s.1.bank k <;> rfl

/-! ### What the tracks did -/

theorem filterMap_zipIdx {α β : Type} (f : α → β) (l : List α) (n k : Nat) :
    ((l.zipIdx n).filterMap fun x => if x.2 = n + k then some (f x.1) else none) = (l[k]?.map f).toList := by
  induction l generalizing n k with
  | nil => rfl
  | cons a l ih =>
    rw [List.zipIdx_cons, List.filterMap_cons]
    cases k with
    | zero =>
      have hrest : ((l.zipIdx (n + 1)).filterMap fun x => if x.2 = n + 0 then some (f x.1) else none) = [] := by
        refine List.filterMap_eq_nil_iff.2 fun x hx => if_neg ?_
        have := List.le_snd_of_mem_zipIdx hx
        omega
      rw [hrest]
      simp
    | succ k =>
      have hindex : n + (k + 1) = n + 1 + k := by omega
      rw [if_neg (by omega), hindex, ih]
      rfl

theorem outcomesOf_reported_stepping (s : Sequencer capacity × ∀ i, σ i) (x : Stepping ι) (k : Nat) :
    outcomesOf k (x.reported s) = s.1.tracks[k]?.elim [] (·.outcomes (x.bank? s.1.bank k).toList) := by
  cases x with
  | all route =>
    have h := filterMap_zipIdx (fun step : Step => step.outcome) s.1.steps 0 k
    rw [Nat.zero_add, steps, List.getElem?_map] at h
    rw [outcomesOf, Stepping.reported, List.filterMap_map]
    refine h.trans ?_
    cases s.1.tracks[k]? <;> rfl
  | one index bank route =>
    rw [outcomesOf, Stepping.reported, Stepping.bank?]
    by_cases h : index = k
    · subst h
      cases s.1.tracks[index]? with
      | none => rfl
      | some t => simp [Track.tickOn_fst, Track.outcomes]
    · cases s.1.tracks[index]? <;> cases s.1.tracks[k]? <;> simp [h, Track.outcomes]

/-- **A track does in its ticks what it does on its own.** -/
theorem outcomesOf_reported (s : Sequencer capacity × ∀ i, σ i) (xs : List (Stepping ι)) (k : Nat) :
    outcomesOf k (reported s xs) = s.1.tracks[k]?.elim [] (·.outcomes (xs.filterMap (·.bank? s.1.bank k))) := by
  induction xs generalizing s with
  | nil => cases s.1.tracks[k]? <;> rfl
  | cons x xs ih =>
    have hfirst := outcomesOf_reported_stepping s x k
    have hrest := ih (x.apply s)
    rw [getElem?_tracks_stepping, bank_apply_stepping] at hrest
    unfold outcomesOf at *
    rw [reported, List.filterMap_append, hfirst, hrest, List.filterMap_cons]
    cases s.1.tracks[k]? with
    | none => rfl
    | some t => cases x.bank? s.1.bank k <;> rfl

/-! ### What the hosts take -/

theorem play_snd (s : Sequencer capacity) {τ : Type} [Host τ] (host : τ) :
    (s.play host).2 = (s.tick.tones.map fun x => x.2.pack).foldl Host.call host := by
  rw [List.foldl_map]
  rfl

theorem filterMap_call? (i : ι) (route : Route ι) (steps : List Step) :
    (steps.filterMap fun step => Route.call? i (route, step.outcome)) =
      if route = .heard i then steps.filterMap fun step => step.outcome.tone?.map Tone.pack else [] := by
  by_cases h : route = .heard i
  · simp only [Route.call?, h, if_true]
  · rw [if_neg h]
    exact List.filterMap_eq_nil_iff.2 fun step _ => if_neg h

/-- **A host takes the calls of a tick that it hears**, and no others. -/
theorem tickOn_snd (s : Sequencer capacity × ∀ i, σ i) (route : Route ι) (i : ι) :
    (tickOn s route).2 i =
      (s.1.steps.filterMap fun step => Route.call? i (route, step.outcome)).foldl Host.call (s.2 i) := by
  rw [filterMap_call?]
  cases route with
  | unheard => rfl
  | heard j =>
    simp only [tickOn, play_snd, update_foldl_call]
    rw [tick, map_tonesFrom]

theorem snd_apply_stepping (s : Sequencer capacity × ∀ i, σ i) (x : Stepping ι) (i : ι) :
    (x.apply s).2 i = ((x.reported s).filterMap fun r => Route.call? i r.2).foldl Host.call (s.2 i) := by
  cases x with
  | all route =>
    -- The report numbers the steps, which no host hears of.
    have hsteps : ((Stepping.all route).reported s).filterMap (fun r => Route.call? i r.2) =
        s.1.steps.filterMap fun step => Route.call? i (route, step.outcome) := by
      rw [Stepping.reported, List.filterMap_map]
      exact filterMap_zipIdx_fst (fun step => Route.call? i (route, step.outcome)) s.1.steps 0
    rw [hsteps]
    exact tickOn_snd s route i
  | one index bank route =>
    cases htrack : s.1.tracks[index]? with
    | none => simp [Stepping.apply, Stepping.reported, htrack]
    | some t =>
      have hstep := Track.tickOn_snd (t, s.2) bank route i
      simp only [Stepping.apply, Stepping.reported, htrack, hstep, Track.tickOn_fst, Option.map_some, Option.toList_some,
        List.filterMap_cons, List.filterMap_nil]
      cases Route.call? i (route, (t.tick bank).outcome) <;> rfl

/-- **Each host takes the calls of the ticks that it hears**, in the order in which they are made. -/
theorem drive_snd (s : Sequencer capacity × ∀ i, σ i) (xs : List (Stepping ι)) (i : ι) :
    (drive s xs).2 i = ((reported s xs).filterMap fun r => Route.call? i r.2).foldl Host.call (s.2 i) := by
  induction xs generalizing s with
  | nil => rfl
  | cons x xs ih =>
    have hrest : (drive s (x :: xs)).2 i = _ := ih (x.apply s)
    rw [hrest, snd_apply_stepping, reported, List.filterMap_append, List.foldl_append]

/-- **Every route of a tick is the same machine.** A track that is ticked with a host at hand does what it does
unheard, and the host takes its packed tone, in one call, if one sounds and nothing otherwise. A sequencer that
is ticked with a host does what it does unheard, which is a tick of each track and the tones of these; the host
takes all of them, one call for each, in order. So it is in every run, with hosts of any kinds and the routes in
any mixture, tracks being ticked by their sequencer or on their own: a track stands where its ticks leave it
unheard, it has done in them what it does unheard, and a host has taken the calls of the ticks that it heard and
no others. What a host makes of them has no part in this. -/
theorem routes_are_one_machine (capacity : Nat) (ι : Type) [DecidableEq ι] (σ : ι → Type) [∀ i, Host (σ i)] :
    (∀ (t : Track) (bank : Soundbank) (τ : Type) [Host τ] (host : τ),
      (t.play bank host).1 = t.tick bank ∧
      (t.play bank host).2 = match (t.tick bank).outcome with
        | .played tone => Host.call host tone.pack
        | .waited _ | .rest | .looped => host) ∧
    (∀ (s : Sequencer capacity) (τ : Type) [Host τ] (host : τ),
      (s.play host).1 = s.tick ∧
      (s.play host).2 = (s.tick.tones.map fun x => x.2.pack).foldl Host.call host ∧
      s.tick.sequencer.tracks = s.tracks.map (fun t => (t.tick s.bank).track) ∧
      s.tick.tones = s.tracks.zipIdx.filterMap fun x => (x.1.tick s.bank).outcome.tone?.map (x.2, ·)) ∧
    (∀ (t : Track) (hosts : ∀ i, σ i) (xs : List (Soundbank × Route ι)),
      (Track.ride (t, hosts) xs).1 = t.through (xs.map (·.1)) ∧
      (Track.reported (t, hosts) xs).map (·.2) = t.outcomes (xs.map (·.1)) ∧
      ∀ i, (Track.ride (t, hosts) xs).2 i =
        ((Track.reported (t, hosts) xs).filterMap (Route.call? i)).foldl Host.call (hosts i)) ∧
    ∀ (s : Sequencer capacity) (hosts : ∀ i, σ i) (xs : List (Stepping ι)),
      (drive (s, hosts) xs).1 = (operate (s, Silence.mk) (xs.map (·.unheard))).1 ∧
      (∀ k, (drive (s, hosts) xs).1.tracks[k]? =
        s.tracks[k]?.map fun t : Track => t.through (xs.filterMap (·.bank? s.bank k))) ∧
      (∀ k, outcomesOf k (reported (s, hosts) xs) =
        s.tracks[k]?.elim [] fun t : Track => t.outcomes (xs.filterMap (·.bank? s.bank k))) ∧
      ∀ i, (drive (s, hosts) xs).2 i =
        ((reported (s, hosts) xs).filterMap fun r => Route.call? i r.2).foldl Host.call (hosts i) := by
  refine ⟨fun t bank τ _ host => ⟨Track.play_fst t bank host, ?_⟩,
    fun s τ _ host => ⟨rfl, play_snd s host, ?_, tones_tick s⟩, fun t hosts xs => ?_, fun s hosts xs => ?_⟩
  · rw [Track.play_snd]
    cases (t.tick bank).outcome <;> rfl
  · exact List.map_map
  · exact ⟨Track.ride_fst _ xs, Track.map_reported _ xs, Track.ride_snd _ xs⟩
  · exact ⟨drive_fst _ xs, getElem?_tracks_drive _ xs, outcomesOf_reported _ xs, drive_snd _ xs⟩

end Sequencer

end Chiptune
