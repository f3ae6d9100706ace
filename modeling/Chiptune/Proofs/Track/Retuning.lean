import Mathlib.Data.List.Forall2
import Chiptune.Proofs.Config
import Chiptune.Proofs.Track.Heard
/-!
# Retuning

A cursor keeps time by its score alone. Of a run only the steps and the resets move it (`Beat`), and how they
do (`Beat.move`) knows no sound bank and no settings: a track simulates this clockwork in every run
(`place_operate`), so runs with the same beats are at the same entry at the same time.

Between two runs that differ in their sound banks only (`Operation.Over`), one bank having the first notes of
the other one, a note that both have sounds the same and any other is silent in the first
(`sounds_of_narrows`). Notes that no byte can number are never looked at (`observe_of_agreeOnBytes`).

Main statement `retuning_never_shifts_time`.
-/
namespace Chiptune

/-! ## The clockwork -/

/-- What moves a cursor. -/
inductive Beat where
  | step
  | reset
deriving DecidableEq

structure Place where
  next : Nat
  wait : Nat
deriving DecidableEq

def Beat.move (s : Score) (p : Place) : Beat → Place
  | .step =>
    if 0 < p.wait then { p with wait := p.wait - 1 }
    else match s[p.next]? with
      | some e => ⟨if e.note = Entry.endMark then 0 else (p.next + 1) % s.length, e.duration.toNat⟩
      | none => p
  | .reset => ⟨0, 0⟩

namespace Track

variable {σ τ : Type} [Host σ] [Host τ] {t u : Track} {b c : Soundbank} {xs ys : List Operation}

def place (t : Track) : Place := ⟨t.next, t.wait⟩

def Operation.beat? : Operation → Option Beat
  | .tick _ | .play _ => some .step
  | .reset => some .reset
  | .setInstrument _ | .setVolume _ => none

theorem place_tick (t : Track) (bank : Soundbank) :
    (t.tick bank).track.place = Beat.step.move t.score t.place := by
  by_cases hw : 0 < t.wait
  · rw [tick_of_waiting hw]
    simp only [Beat.move, place, hw, if_true]
  · rw [tick_of_ready (by omega)]
    simp only [Beat.move, place, hw, if_false, getElem?_score_next, length_score]
    rfl

/-- An operation that is no beat leaves the cursor where it is. -/
theorem place_apply (op : Operation) (s : Track × σ) :
    (op.apply s).1.place = op.beat?.elim s.1.place (Beat.move s.1.score s.1.place) := by
  cases op with
  | tick bank => exact place_tick s.1 bank
  | play bank =>
    simp only [Operation.apply, play_fst]
    exact place_tick s.1 bank
  | reset => rfl
  | setInstrument number => rfl
  | setVolume volume => rfl

/-- **A cursor goes as the clockwork does**, through any operations over any sound banks. -/
theorem place_operate (s : Track × σ) (ops : List Operation) :
    (operate s ops).1.place = (ops.filterMap (·.beat?)).foldl (Beat.move s.1.score) s.1.place := by
  induction ops generalizing s with
  | nil => rfl
  | cons op ops ih =>
    have hrest := ih (op.apply s)
    rw [place_apply, (apply_sameEntries s op).score] at hrest
    rw [List.filterMap_cons]
    cases hbeat : op.beat? with
    | none =>
      rw [hbeat] at hrest
      exact hrest
    | some beat =>
      rw [hbeat] at hrest
      exact hrest

theorem place_congr (hdata : t.data = u.data) (hcount : t.count = u.count) (hplace : t.place = u.place)
    (hbeats : xs.filterMap (·.beat?) = ys.filterMap (·.beat?)) (host : σ) (host' : τ) :
    (operate (t, host) xs).1.place = (operate (u, host') ys).1.place := by
  rw [place_operate, place_operate, hbeats, hplace, score_congr hdata hcount]

theorem entry_congr (hscore : t.score = u.score) (hplace : t.place = u.place) : t.entry = u.entry := by
  have hnext : t.next = u.next := congrArg Place.next hplace
  have hget := t.getElem?_score_next
  rw [hscore, hnext, getElem?_score_next] at hget
  exact (Option.some.inj hget).symm

/-! ## Runs over other sound banks -/

/-- The same operation over sound banks in a relation. -/
inductive Operation.Over (R : Soundbank → Soundbank → Prop) : Operation → Operation → Prop where
  | tick {b c : Soundbank} (h : R b c) : Over R (.tick b) (.tick c)
  | play {b c : Soundbank} (h : R b c) : Over R (.play b) (.play c)
  | reset : Over R .reset .reset
  | setInstrument (number : UInt8) : Over R (.setInstrument number) (.setInstrument number)
  | setVolume (volume : UInt8) : Over R (.setVolume volume) (.setVolume volume)

theorem track_tick (t : Track) (b c : Soundbank) : (t.tick b).track = (t.tick c).track := by
  unfold tick
  split <;> rfl

theorem track_apply {R : Soundbank → Soundbank → Prop} {x y : Operation} (h : x.Over R y) {s : Track × σ}
    {s' : Track × τ} (hs : s.1 = s'.1) : (x.apply s).1 = (y.apply s').1 := by
  cases h with
  | tick =>
    rw [Operation.apply, Operation.apply, hs]
    exact track_tick s'.1 _ _
  | play =>
    rw [Operation.apply, Operation.apply, play_fst, play_fst, hs]
    exact track_tick s'.1 _ _
  | reset => rw [Operation.apply, Operation.apply, hs]
  | setInstrument => rw [Operation.apply, Operation.apply, hs]
  | setVolume => rw [Operation.apply, Operation.apply, hs]

theorem track_operate {R : Soundbank → Soundbank → Prop} (h : List.Forall₂ (Operation.Over R) xs ys)
    {s : Track × σ} {s' : Track × τ} (hs : s.1 = s'.1) : (operate s xs).1 = (operate s' ys).1 := by
  induction h generalizing s s' with
  | nil => exact hs
  | cons hxy _ ih => exact ih (track_apply hxy hs)

/-! ### Fewer notes -/

end Track

/-- The first sound bank has the first notes of the second one, with the same instruments. -/
structure Soundbank.Narrows (b c : Soundbank) : Prop where
  notes : b.tuning.frequencies <+: c.tuning.frequencies
  instruments : b.instruments = c.instruments

theorem Soundbank.Narrows.get? {b c : Soundbank} (h : b.Narrows c) {note : Nat} (hnote : note < b.tuning.size) :
    b.tuning.get? note = c.tuning.get? note := by
  obtain ⟨more, hmore⟩ := h.notes
  rw [Tuning.get?, Tuning.get?, ← hmore, List.getElem?_append_left hnote]

namespace Track

variable {σ τ : Type} [Host σ] [Host τ] {t u : Track} {b c : Soundbank} {xs ys : List Operation}

theorem decode_of_lt (h : b.Narrows c) {e : Entry} (hnote : e.note.toNat < b.tuning.size) :
    t.decode b e = t.decode c e := by
  simp only [decode, h.get? hnote, tone, h.instruments]

/-- What a tuning does not have is silent. -/
theorem decode_of_le {e : Entry} (hnote : b.tuning.size ≤ e.note.toNat) :
    t.decode b e = .rest ∨ t.decode b e = .looped := by
  have hget : b.tuning.get? e.note.toNat = none := List.getElem?_eq_none_iff.2 hnote
  by_cases hend : e.note = Entry.endMark
  · exact .inr (by simp only [decode, hget, if_pos hend])
  · exact .inl (by simp only [decode, hget, if_neg hend])

/-- **A tick over fewer notes** plays what it would over all of them if it has the note, and is silent if
it has not. -/
theorem tick_of_narrows (h : b.Narrows c) (t : Track) :
    ((t.tick b).outcome.tone? =
        if t.entry.note.toNat < b.tuning.size then (t.tick c).outcome.tone? else none) ∧
      ∀ tone, (t.tick c).outcome = .played tone → b.tuning.size ≤ t.entry.note.toNat →
        (t.tick b).outcome = .rest ∨ (t.tick b).outcome = .looped := by
  by_cases hw : 0 < t.wait
  · rw [tick_of_waiting hw, tick_of_waiting hw]
    refine ⟨?_, nofun⟩
    split <;> rfl
  · rw [tick_of_ready (by omega), tick_of_ready (by omega)]
    by_cases hnote : t.entry.note.toNat < b.tuning.size
    · rw [if_pos hnote, decode_of_lt h hnote]
      refine ⟨rfl, fun _ _ hle => ?_⟩
      omega
    · have hsilent : t.decode b t.entry = .rest ∨ t.decode b t.entry = .looped := decode_of_le (by omega)
      rw [if_neg hnote]
      refine ⟨?_, fun _ _ _ => hsilent⟩
      rcases hsilent with hrest | hlooped
      · rw [hrest, Outcome.tone?]
      · rw [hlooped, Outcome.tone?]

/-- The entry that sounds in an operation, with its tone. -/
def Operation.sound? (s : Track × σ) (op : Operation) : Option (Entry × Tone) :=
  (op.step? s).bind fun step => step.outcome.tone?.map (s.1.entry, ·)

/-- What sounds in each of some operations, the first one first. -/
def sounds (s : Track × σ) : List Operation → List (Option (Entry × Tone))
  | [] => []
  | op :: ops => op.sound? s :: sounds (op.apply s) ops

def Operation.notes : Operation → Nat
  | .tick bank | .play bank => bank.tuning.size
  | .reset | .setInstrument _ | .setVolume _ => 0

theorem sound?_of_narrows {x y : Operation} (h : x.Over Soundbank.Narrows y) {s : Track × σ} {s' : Track × τ}
    (hs : s.1 = s'.1) :
    x.sound? s = (y.sound? s').filter fun sound => sound.1.note.toNat < x.notes := by
  have htick {b c : Soundbank} (h : b.Narrows c) :
      (s.1.tick b).outcome.tone?.map (s.1.entry, ·) = ((s'.1.tick c).outcome.tone?.map (s'.1.entry, ·)).filter
        fun sound => sound.1.note.toNat < b.tuning.size := by
    rw [hs, (tick_of_narrows h s'.1).1]
    cases (s'.1.tick c).outcome.tone? with
    | none => simp
    | some tone =>
      by_cases hnote : s'.1.entry.note.toNat < b.tuning.size <;> simp [Option.filter, hnote]
  cases h with
  | tick h => exact htick h
  | play h =>
    simp only [Operation.sound?, Operation.step?, play_fst]
    exact htick h
  | reset => rfl
  | setInstrument number => rfl
  | setVolume volume => rfl

/-- **A run over fewer notes** sounds where the run over all of them sounds of a note that it has. -/
theorem sounds_of_narrows (h : List.Forall₂ (Operation.Over Soundbank.Narrows) xs ys) {s : Track × σ}
    {s' : Track × τ} (hs : s.1 = s'.1) :
    sounds s xs = List.zipWith
      (fun x sound? => sound?.filter fun sound => sound.1.note.toNat < x.notes) xs (sounds s' ys) := by
  induction h generalizing s s' with
  | nil => rfl
  | cons hxy _ ih =>
    rw [sounds, sounds, List.zipWith_cons_cons, sound?_of_narrows hxy hs, ih (track_apply hxy hs)]

end Track

/-! ### Notes that no byte can number -/

/-- The sound banks agree on the notes that a byte can number, and on the instruments. -/
structure Soundbank.AgreeOnBytes (b c : Soundbank) : Prop where
  notes : b.tuning.frequencies.take 256 = c.tuning.frequencies.take 256
  instruments : b.instruments = c.instruments

theorem Soundbank.AgreeOnBytes.get? {b c : Soundbank} (h : b.AgreeOnBytes c) (note : UInt8) :
    b.tuning.get? note.toNat = c.tuning.get? note.toNat := by
  have hlt : note.toNat < 256 := note.toNat_lt
  rw [Tuning.get?, Tuning.get?, ← List.getElem?_take_of_lt hlt, h.notes, List.getElem?_take_of_lt hlt]

namespace Track

variable {σ τ : Type} [Host σ] [Host τ] {t u : Track} {b c : Soundbank} {xs ys : List Operation}

theorem tick_of_agreeOnBytes (h : b.AgreeOnBytes c) (t : Track) : t.tick b = t.tick c := by
  simp only [tick, decode, records, tone, h.get?, h.instruments]

theorem observe_of_agreeOnBytes (h : List.Forall₂ (Operation.Over Soundbank.AgreeOnBytes) xs ys)
    (s : Track × σ) : observe s xs = observe s ys := by
  induction h generalizing s with
  | nil => rfl
  | @cons x y xs ys hxy _ ih =>
    have happly : x.apply s = y.apply s ∧ x.step? s = y.step? s := by
      cases hxy with
      | tick h => simp only [Operation.apply, Operation.step?, tick_of_agreeOnBytes h, and_self]
      | play h => simp only [Operation.apply, Operation.step?, play, tick_of_agreeOnBytes h, and_self]
      | reset => exact ⟨rfl, rfl⟩
      | setInstrument => exact ⟨rfl, rfl⟩
      | setVolume => exact ⟨rfl, rfl⟩
    rw [observe, observe, Operation.view, Operation.view, happly.1, happly.2, ih]

/-! ## Time and tones -/

/-- Runs with the same beats stand at the same place with the same entry before them. -/
theorem place_of_new {data : Array UInt8} {count : Nat} {settings settings' : Settings}
    (ht : (new data count).map (·.withSettings settings) = .ok t)
    (hu : (new data count).map (·.withSettings settings') = .ok u)
    (hbeats : xs.filterMap (·.beat?) = ys.filterMap (·.beat?)) (host : σ) (host' : τ) :
    (operate (t, host) xs).1.place = (operate (u, host') ys).1.place ∧
      (operate (t, host) xs).1.entry = (operate (u, host') ys).1.entry := by
  have hnew := isNew_of_new ht
  have hnew' := isNew_of_new hu
  have hdata : t.data = u.data := hnew.data_eq.trans hnew'.data_eq.symm
  have hcount : t.count = u.count := hnew.count_eq.trans hnew'.count_eq.symm
  have hstart : t.place = u.place := by
    rw [place, place, hnew.next_eq, hnew.wait_eq, hnew'.next_eq, hnew'.wait_eq]
  have hplace := place_congr hdata hcount hstart hbeats host host'
  have hscore : (operate (t, host) xs).1.score = (operate (u, host') ys).1.score := by
    rw [(operate_sameEntries (t, host) xs).score, (operate_sameEntries (u, host') ys).score]
    exact score_congr hdata hcount
  exact ⟨hplace, entry_congr hscore hplace⟩

/-- **Retuning never shifts time.** Two runs over the same entries, with the same steps and resets, stand at
the same place after them and decode the same entry next, whatever their settings, sound banks, hosts and
changes of instrument and volume are. If the runs differ in their sound banks only, those of the first having
fewer notes, then the first sounds just where the second one does with a note that the first has, with the
same tones; with any other note it rests or loops. Notes past the 256th are never heard of. -/
theorem retuning_never_shifts_time {data : Array UInt8} {count : Nat} {settings : Settings}
    (ht : (new data count).map (·.withSettings settings) = .ok t) (host : σ) (host' : τ) :
    (∀ settings' u, (new data count).map (·.withSettings settings') = .ok u →
      ∀ xs ys, xs.filterMap (·.beat?) = ys.filterMap (·.beat?) →
        let now := (operate (t, host) xs).1
        let now' := (operate (u, host') ys).1
        now.next = now'.next ∧ now.wait = now'.wait ∧ now.entry = now'.entry) ∧
    (∀ xs ys, List.Forall₂ (Operation.Over Soundbank.Narrows) xs ys →
      sounds (t, host) xs = List.zipWith
        (fun x sound? => sound?.filter fun sound => sound.1.note.toNat < x.notes) xs (sounds (t, host') ys) ∧
      ∀ b c, b.Narrows c →
        let now := (operate (t, host) xs).1
        let now' := (operate (t, host') ys).1
        now = now' ∧ ∀ tone, (now'.tick c).outcome = .played tone → b.tuning.size ≤ now'.entry.note.toNat →
          (now.tick b).outcome = .rest ∨ (now.tick b).outcome = .looped) ∧
    ∀ xs ys, List.Forall₂ (Operation.Over Soundbank.AgreeOnBytes) xs ys →
      observe (t, host) xs = observe (t, host) ys := by
  refine ⟨?_, ?_, fun xs ys h => observe_of_agreeOnBytes h (t, host)⟩
  · intro settings' u hu xs ys hbeats
    obtain ⟨hplace, hentry⟩ := place_of_new ht hu hbeats host host'
    exact ⟨congrArg Place.next hplace, congrArg Place.wait hplace, hentry⟩
  · intro xs ys h
    refine ⟨sounds_of_narrows h rfl, fun b c hbc => ?_⟩
    have htrack : (operate (t, host) xs).1 = (operate (t, host') ys).1 := track_operate h rfl
    refine ⟨htrack, fun tone hplayed hnote => ?_⟩
    rw [htrack]
    exact (tick_of_narrows hbc _).2 tone hplayed hnote

/-- A note, an end mark and a note that is never reached. Set and tuned otherwise, the track comes to the end
mark at the same time; over one note it loses the note, and a 257th note is not heard of. -/
theorem retuning_never_shifts_time_end_mark :
    let data : Array UInt8 := #[33, 1, 0, 0xFE, 0, 0, 12, 0, 0]
    let low : Soundbank := ⟨⟨65, [], rfl⟩, .reference⟩
    let wide (rest : Nat) : Soundbank :=
      ⟨⟨440, List.replicate rest 440, firstDescent_replicate 440 1 rest⟩, .reference⟩
    let xs : List Operation := [.play low, .setVolume 3, .tick low, .play low]
    let ys : List Operation := [.tick .reference, .setInstrument 9, .tick .reference, .setVolume 1]
    let zs : List Operation := [.play .reference, .setVolume 3, .tick .reference, .play .reference]
    ∃ t u, (new data 3).map (·.withSettings ⟨2, 15, 42⟩) = .ok t ∧
      (new data 3).map (·.withSettings ⟨1, 0, 100⟩) = .ok u ∧
      (operate (t, Silence.mk) (xs.take 3)).1.next = 1 ∧
      (operate (t, Silence.mk) (xs.take 3)).1.entry = (operate (u, Silence.mk) ys).1.entry ∧
      sounds (t, Silence.mk) xs = [none, none, none, none] ∧
      (sounds (t, Silence.mk) zs).map (·.isSome) = [true, false, false, false] ∧
      observe (t, Silence.mk) [.play (wide 255), .reset] = observe (t, Silence.mk) [.play (wide 256), .reset] := by
  intro data low wide xs ys zs
  have ht : (new data 3).map (·.withSettings ⟨2, 15, 42⟩) =
      .ok ⟨data, 3, ⟨2, 15, 42⟩, 0, 0, by decide, by decide⟩ := rfl
  have hu : (new data 3).map (·.withSettings ⟨1, 0, 100⟩) =
      .ok ⟨data, 3, ⟨1, 0, 100⟩, 0, 0, by decide, by decide⟩ := rfl
  obtain ⟨htime, htones, hbytes⟩ := retuning_never_shifts_time ht Silence.mk Silence.mk
  obtain ⟨hnext, -, hentry⟩ := htime ⟨1, 0, 100⟩ _ hu (xs.take 3) ys rfl
  have hlow : low.Narrows .reference := ⟨⟨Tuning.reference.rest, rfl⟩, rfl⟩
  have hover : List.Forall₂ (Operation.Over Soundbank.Narrows) xs zs :=
    .cons (.play hlow) (.cons (.setVolume 3) (.cons (.tick hlow) (.cons (.play hlow) .nil)))
  have hnotes (rest : Nat) (h : 255 ≤ rest) :
      (wide rest).tuning.frequencies.take 256 = List.replicate 256 440 := by
    have hall : (wide rest).tuning.frequencies = List.replicate (rest + 1) 440 := rfl
    rw [hall, List.take_replicate, Nat.min_eq_left (by omega)]
  have hwide : (wide 255).AgreeOnBytes (wide 256) :=
    ⟨(hnotes 255 (by decide)).trans (hnotes 256 (by decide)).symm, rfl⟩
  refine ⟨_, _, ht, hu, hnext.trans rfl, hentry, (htones xs zs hover).1.trans ?_, by decide,
    hbytes _ _ (.cons (.play hwide) (.cons .reset .nil))⟩
  decide

end Track

end Chiptune
