import Chiptune.Proofs.Sequencer.History
import Chiptune.Proofs.Track.Calls
import Chiptune.Proofs.Track.Retuning
import Chiptune.Proofs.Tuning
/-!
# Higher notes

A tuning looks at neighbours only, and that orders all of its notes (`Tuning.le_of_get?`). What sounds under a
tuning is on pitch: its call has the frequency of its note. This holds of each operation on a track and on a
sequencer (`onPitch_of_sound?`, `onPitch_of_mem_sounds`) and so of whatever sounds in a run, and what is on
pitch is in the order of the notes (`OnPitch.le`).

Main statement `ofFrequencies_orders_notes`.
-/
namespace Chiptune

/-! ## The notes of a tuning -/

namespace Tuning

theorem not_descendsAt (t : Tuning) (i : Nat) : ¬ DescendsAt t.frequencies i :=
  (exists_ofFrequencies_eq_ok.1 ⟨t, ofFrequencies_eq_ok.2 rfl⟩).2 i

/-- **A note is not lower than one before it.** -/
theorem le_of_get? {t : Tuning} {a b : Nat} {x y : UInt16} (hab : a ≤ b) (hx : t.get? a = some x)
    (hy : t.get? b = some y) : x ≤ y :=
  le_of_not_descendsAt (fun i _ => t.not_descendsAt i) hab (Nat.lt_succ_self b) hx hy

end Tuning

/-! ## What sounds in a run -/

/-- The call of what sounds has the frequency of its note. -/
def OnPitch (t : Tuning) (sound : Entry × Tone) : Prop :=
  (t.get? sound.1.note.toNat).map UInt16.toNat = some sound.2.pack.frequency.toNat

theorem OnPitch.le {t : Tuning} {x y : Entry × Tone} (hx : OnPitch t x) (hy : OnPitch t y)
    (h : x.1.note ≤ y.1.note) : x.2.pack.frequency ≤ y.2.pack.frequency := by
  obtain ⟨hz, hget, heq⟩ := Option.map_eq_some_iff.1 hx
  obtain ⟨hz', hget', heq'⟩ := Option.map_eq_some_iff.1 hy
  rw [UInt32.le_iff_toNat_le, ← heq, ← heq']
  exact Tuning.le_of_get? h hget hget'

namespace Track

variable {σ : Type} [Host σ] {tuning : Tuning}

/-- An operation that decodes under a tuning, if it decodes anything. -/
def Operation.TunedBy (tuning : Tuning) : Operation → Prop
  | .tick bank | .play bank => bank.tuning = tuning
  | .reset | .setInstrument _ | .setVolume _ => True

theorem onPitch_of_tick {t : Track} {bank : Soundbank} {sound : Entry × Tone}
    (h : (t.tick bank).outcome.tone?.map (t.entry, ·) = some sound) : OnPitch bank.tuning sound := by
  obtain ⟨tone, htone, rfl⟩ := Option.map_eq_some_iff.1 h
  obtain ⟨-, hdecodes⟩ := decodes_of_played (Outcome.tone?_eq_some.1 htone)
  exact (carries_of_decodes hdecodes).frequency

/-- **What sounds in an operation is on pitch.** -/
theorem onPitch_of_sound? {s : Track × σ} {op : Operation} {sound : Entry × Tone} (hop : op.TunedBy tuning)
    (h : op.sound? s = some sound) : OnPitch tuning sound := by
  cases op with
  | tick bank =>
    obtain rfl : bank.tuning = tuning := hop
    exact onPitch_of_tick h
  | play bank =>
    obtain rfl : bank.tuning = tuning := hop
    simp only [Operation.sound?, Operation.step?, play_fst] at h
    exact onPitch_of_tick h
  | reset => cases h
  | setInstrument number => cases h
  | setVolume volume => cases h

theorem onPitch_of_mem_sounds {s : Track × σ} {ops : List Operation} {sound : Entry × Tone}
    (hops : ∀ op ∈ ops, op.TunedBy tuning) (h : some sound ∈ sounds s ops) : OnPitch tuning sound := by
  induction ops generalizing s with
  | nil => cases h
  | cons op ops ih =>
    rw [List.forall_mem_cons] at hops
    rw [sounds, List.mem_cons] at h
    rcases h with h | h
    · exact onPitch_of_sound? hops.1 h.symm
    · exact ih hops.2 h

end Track

namespace Sequencer

variable {capacity : Nat} {σ : Type} [Host σ] {tuning : Tuning}

namespace Operation

def TunedBy (tuning : Tuning) : Operation → Prop
  | .aim _ op => op.TunedBy tuning
  | .add _ | .tick | .play | .reset => True

/-- What sounds in an operation, in the order of the tracks. -/
def sounds (s : Sequencer capacity × σ) : Operation → List (Entry × Tone)
  | .tick | .play => s.1.tracks.filterMap fun t => (Track.Operation.tick s.1.bank).sound? (t, s.2)
  | .aim index op => (s.1.tracks[index]?.bind fun t => op.sound? (t, s.2)).toList
  | .add _ | .reset => []

end Operation

/-- What sounds in some operations, the first one first. -/
def sounds (s : Sequencer capacity × σ) : List Operation → List (Entry × Tone)
  | [] => []
  | op :: ops => op.sounds s ++ sounds (op.apply s) ops

theorem onPitch_of_mem_operation {s : Sequencer capacity × σ} {op : Operation} {sound : Entry × Tone}
    (hbank : s.1.bank.tuning = tuning) (hop : op.TunedBy tuning) (h : sound ∈ op.sounds s) :
    OnPitch tuning sound := by
  have htick (h : sound ∈ s.1.tracks.filterMap fun t => (Track.Operation.tick s.1.bank).sound? (t, s.2)) :
      OnPitch tuning sound := by
    obtain ⟨t, -, hsound⟩ := List.mem_filterMap.1 h
    exact hbank ▸ Track.onPitch_of_tick hsound
  cases op with
  | tick => exact htick h
  | play => exact htick h
  | aim index op =>
    obtain ⟨t, -, hsound⟩ := Option.bind_eq_some_iff.1 (Option.mem_toList.1 h)
    exact Track.onPitch_of_sound? hop hsound
  | add t => cases h
  | reset => cases h

theorem onPitch_of_mem_sounds {s : Sequencer capacity × σ} {ops : List Operation} {sound : Entry × Tone}
    (hbank : s.1.bank.tuning = tuning) (hops : ∀ op ∈ ops, op.TunedBy tuning) (h : sound ∈ sounds s ops) :
    OnPitch tuning sound := by
  induction ops generalizing s with
  | nil => cases h
  | cons op ops ih =>
    rw [List.forall_mem_cons] at hops
    rw [sounds, List.mem_append] at h
    rcases h with h | h
    · exact onPitch_of_mem_operation hbank hops.1 h
    · exact ih ((congrArg Soundbank.tuning (bank_apply op s)).trans hbank) hops.2 h

end Sequencer

namespace Tuning

/-- **A tuning orders its notes.** A list of frequencies is refused if it is empty, or for its first frequency
that is lower than the one before; all before that one are in order. Any other list is a tuning, and in it no
note is lower than one before it. So in every run under a tuning, of a track or of a sequencer, with whatever
instruments, the call of an entry with a higher note never has a lower frequency. -/
theorem ofFrequencies_orders_notes (frequencies : List UInt16) :
    (ofFrequencies frequencies = .error .empty ↔ frequencies = []) ∧
    (∀ i, ofFrequencies frequencies = .error (.notMonotonic i) ↔ IsLeast {j | DescendsAt frequencies j} i) ∧
    ((∃ i, ofFrequencies frequencies = .error (.notMonotonic i)) ↔ ∃ i, DescendsAt frequencies i) ∧
    (∀ i, IsLeast {j | DescendsAt frequencies j} i → ∀ a b x y, a ≤ b → b < i →
      frequencies[a]? = some x → frequencies[b]? = some y → x ≤ y) ∧
    ((∃ t, ofFrequencies frequencies = .ok t) ↔ frequencies ≠ [] ∧ ∀ i, ¬ DescendsAt frequencies i) ∧
    ∀ t, ofFrequencies frequencies = .ok t →
      t.frequencies = frequencies ∧
      (∀ a b x y, a ≤ b → t.get? a = some x → t.get? b = some y → x ≤ y) ∧
      (∀ (σ : Type) [Host σ] (s : Track × σ) (ops : List Track.Operation), (∀ op ∈ ops, op.TunedBy t) →
        ∀ x y, some x ∈ Track.sounds s ops → some y ∈ Track.sounds s ops → x.1.note ≤ y.1.note →
          x.2.pack.frequency ≤ y.2.pack.frequency) ∧
      ∀ (capacity : Nat) (σ : Type) [Host σ] (s : Sequencer capacity × σ) (ops : List Sequencer.Operation),
        s.1.bank.tuning = t → (∀ op ∈ ops, op.TunedBy t) →
        ∀ x ∈ Sequencer.sounds s ops, ∀ y ∈ Sequencer.sounds s ops, x.1.note ≤ y.1.note →
          x.2.pack.frequency ≤ y.2.pack.frequency := by
  have hleast (i : Nat) :
      ofFrequencies frequencies = .error (.notMonotonic i) ↔ IsLeast {j | DescendsAt frequencies j} i := by
    rw [ofFrequencies_eq_error]
    simp
  refine ⟨?_, hleast, ?_, ?_, exists_ofFrequencies_eq_ok, fun t ht => ⟨ofFrequencies_eq_ok.1 ht, ?_, ?_, ?_⟩⟩
  · rw [ofFrequencies_eq_error]
    simp
  · constructor
    · rintro ⟨i, hi⟩
      exact ⟨i, ((hleast i).1 hi).1⟩
    · rintro ⟨i, hi⟩
      obtain ⟨j, hj⟩ := exists_isLeast_descendsAt hi
      exact ⟨j, (hleast j).2 hj⟩
  · intro i hi a b x y hab hb
    refine le_of_not_descendsAt (fun j hj hdescends => ?_) hab hb
    exact Nat.not_lt.2 (hi.2 hdescends) hj
  · intro a b x y hab
    exact le_of_get? hab
  · intro σ _ s ops hops x y hx hy
    exact (Track.onPitch_of_mem_sounds hops hx).le (Track.onPitch_of_mem_sounds hops hy)
  · intro capacity σ _ s ops hbank hops x hx y hy
    exact (Sequencer.onPitch_of_mem_sounds hbank hops hx).le (Sequencer.onPitch_of_mem_sounds hbank hops hy)

/-- Of two descents the first one is told. Three notes, the first two of one frequency, are a tuning: a track
that comes down from the last of them over two banks of instruments never gets higher, and no more do two
tracks side by side. -/
theorem ofFrequencies_orders_notes_three :
    let t : Tuning := ⟨100, [100, 200], rfl⟩
    let bank : Soundbank := ⟨t, .reference⟩
    let other : Soundbank := ⟨t, ⟨[⟨.noise, .half⟩], by decide⟩⟩
    let lead : Track := ⟨#[2, 0, 0, 1, 0, 0], 2, {}, 0, 0, by decide, by decide⟩
    let bass : Track := ⟨#[0, 2, 0], 1, {}, 0, 0, by decide, by decide⟩
    let s : Sequencer 2 × Silence := (⟨bank, [lead, bass], 0, by decide⟩, ⟨⟩)
    let xs := Track.sounds (lead, Silence.mk) [.play bank, .setInstrument 3, .tick other]
    let ys := Sequencer.sounds s [.tick, .aim 1 .reset, .aim 0 (.play other), .play]
    IsLeast {j | DescendsAt [100, 200, 150, 300, 250] j} 2 ∧
      (∀ x, ([100, 200, 150, 300, 250] : List UInt16)[0]? = some x → x ≤ 200) ∧
      ofFrequencies [100, 100, 200] = .ok t ∧ t.get? 0 = some 100 ∧ t.get? 2 = some 200 ∧ (100 : UInt16) ≤ 200 ∧
      (xs.map fun x => x.map fun x => (x.1.note, x.2.pack.frequency)) = [some (2, 200), none, some (1, 100)] ∧
      (∀ x y, some x ∈ xs → some y ∈ xs → x.1.note ≤ y.1.note → x.2.pack.frequency ≤ y.2.pack.frequency) ∧
      (ys.map fun x => (x.1.note, x.2.pack.frequency)) = [(2, 200), (0, 100), (1, 100), (2, 200), (0, 100)] ∧
      ∀ x ∈ ys, ∀ y ∈ ys, x.1.note ≤ y.1.note → x.2.pack.frequency ≤ y.2.pack.frequency := by
  intro t bank other lead bass s xs ys
  obtain ⟨-, htold, -, hbefore, -, -⟩ := ofFrequencies_orders_notes [100, 200, 150, 300, 250]
  have hleast : IsLeast {j | DescendsAt [100, 200, 150, 300, 250] j} 2 := (htold 2).1 rfl
  have ht : ofFrequencies [100, 100, 200] = .ok t := rfl
  obtain ⟨-, -, -, -, -, haccepted⟩ := ofFrequencies_orders_notes [100, 100, 200]
  obtain ⟨-, horder, htrack, hsequencer⟩ := haccepted t ht
  refine ⟨hleast, ?_, ht, rfl, rfl, horder 0 2 100 200 (by decide) rfl rfl, by decide, ?_, by decide, ?_⟩
  · intro x hx
    exact hbefore 2 hleast 0 1 x 200 (by decide) (by decide) hx rfl
  · exact htrack Silence (lead, Silence.mk) [.play bank, .setInstrument 3, .tick other]
      (by simp [Track.Operation.TunedBy, bank, other])
  · exact hsequencer 2 Silence s [.tick, .aim 1 .reset, .aim 0 (.play other), .play] rfl
      (by simp [Sequencer.Operation.TunedBy, Track.Operation.TunedBy, other])

end Tuning

end Chiptune
