import Chiptune.Proofs.Track.Run
/-!
# What is heard of a track

Playback looks at the notes and durations of the entries in the loop and at nothing else of the data;
`Score.heard` is just these. `observe` is what shows of a run: what each operation did and logged, and where
it leaves the cursor and the host. Tracks of which the same is heard, set alike and with their cursors at the
same place, show the same (`SoundsLike.observe_eq`): one operation keeps them alike (`SoundsLike.apply`), and
a run goes by induction. The loops of the two may end for different reasons, an end mark in one and the last
entry in the other.

Main statement `dead_data_never_observed`.
-/
namespace Chiptune

/-- The part of an entry that playback looks at. -/
def Entry.live (e : Entry) : UInt8 × UInt8 := (e.note, e.duration)

/-! ## The live part of a score -/

namespace Score

variable {s s' : Score} {i k : Nat}

/-- Notes and durations of the entries in the loop. -/
def heard (s : Score) : List (UInt8 × UInt8) := (s.take s.loopSize).map Entry.live

theorem length_heard (s : Score) : s.heard.length = s.loopSize := by
  have hle := s.loopSize_le_length
  rw [heard, List.length_map, List.length_take]
  omega

theorem getElem?_heard (hi : i < s.loopSize) : s.heard[i]? = s[i]?.map Entry.live := by
  rw [heard, List.getElem?_map, List.getElem?_take_of_lt hi]

theorem loopSize_congr (h : s.map Entry.live = s'.map Entry.live) : s.loopSize = s'.loopSize := by
  have hend : isEnd = (fun x : UInt8 × UInt8 => decide (x.1 = Entry.endMark)) ∘ Entry.live := rfl
  have hfind : s.findIdx? isEnd = s'.findIdx? isEnd := by
    rw [hend, ← List.findIdx?_map, h, List.findIdx?_map]
  have hlength : s.length = s'.length := by simpa using congrArg List.length h
  rw [loopSize, loopSize, hfind, hlength]

theorem loopSize_take (h : s.loopSize ≤ k) : loopSize (s.take k) = s.loopSize := by
  unfold loopSize at h ⊢
  rw [List.findIdx?_take]
  cases hfind : s.findIdx? isEnd with
  | none =>
    rw [hfind] at h
    simpa using Nat.min_eq_right h
  | some i =>
    rw [hfind] at h
    have hi : i < k := h
    simp [hi]

theorem heard_take (h : s.loopSize ≤ k) : heard (s.take k) = s.heard := by
  rw [heard, heard, loopSize_take h, List.take_take, Nat.min_eq_left h]

/-- **Scores that agree as far as both loops go sound the same.** -/
theorem heard_congr (hs : s.loopSize ≤ k) (hs' : s'.loopSize ≤ k)
    (h : (s.take k).map Entry.live = (s'.take k).map Entry.live) : s.heard = s'.heard := by
  rw [← heard_take hs, ← heard_take hs', heard, heard, List.map_take, h, ← List.map_take, loopSize_congr h]

end Score

/-! ## What shows of a run -/

/-- What shows of an operation: what a tick did and logged, and where the cursor and the host are left. -/
structure View (σ : Type) where
  outcome : Option Outcome
  log : List LogRecord
  next : Nat
  wait : Nat
  host : σ

namespace Track

variable {σ : Type} [Host σ] {t u : Track} {bank : Soundbank}

def Operation.step? (s : Track × σ) : Operation → Option Step
  | .tick bank => some (s.1.tick bank)
  | .play bank => some (s.1.play bank s.2).1
  | .reset | .setInstrument _ | .setVolume _ => none

def Operation.view (s : Track × σ) (op : Operation) : View σ where
  outcome := (op.step? s).map (·.outcome)
  log := ((op.step? s).map (·.log)).getD []
  next := (op.apply s).1.next
  wait := (op.apply s).1.wait
  host := (op.apply s).2

/-- What shows of some operations, the first one first. -/
def observe (s : Track × σ) : List Operation → List (View σ)
  | [] => []
  | op :: ops => op.view s :: observe (op.apply s) ops

/-! ## Tracks that sound alike -/

/-- Tracks that are set alike, with their cursors at the same place of what is heard. -/
structure SoundsLike (t u : Track) : Prop where
  heard : t.score.heard = u.score.heard
  settings : t.settings = u.settings
  next : t.next = u.next
  wait : t.wait = u.wait

theorem decode_congr {e f : Entry} (hsettings : t.settings = u.settings) (hlive : e.live = f.live) :
    t.decode bank e = u.decode bank f := by
  obtain ⟨hnote, hduration⟩ := Prod.mk.inj hlive
  simp only [decode, tone, hsettings, hnote, hduration]

theorem records_congr {e f : Entry} (hsettings : t.settings = u.settings) (hnext : t.next = u.next)
    (hlive : e.live = f.live) : t.records bank e = u.records bank f := by
  obtain ⟨hnote, -⟩ := Prod.mk.inj hlive
  simp only [records, hsettings, hnext, hnote]

namespace SoundsLike

theorem loopSize (h : t.SoundsLike u) : t.score.loopSize = u.score.loopSize := by
  rw [← Score.length_heard, h.heard, Score.length_heard]

theorem onLoop (h : t.SoundsLike u) (ht : t.OnLoop) : u.OnLoop :=
  ⟨h.next ▸ h.loopSize ▸ ht.next_lt, h.wait ▸ ht.wait_le⟩

/-- The entries at the cursors may differ in their flags only. -/
theorem entry (h : t.SoundsLike u) (ht : t.OnLoop) : t.entry.live = u.entry.live := by
  have hget := Score.getElem?_heard ht.next_lt
  have hget' := Score.getElem?_heard (h.onLoop ht).next_lt
  rw [getElem?_score_next] at hget hget'
  rw [h.heard, h.next, hget'] at hget
  exact (Option.some.inj hget).symm

/-- **A tick does the same on both**, and they go on alike. -/
theorem tick (h : t.SoundsLike u) (ht : t.OnLoop) (bank : Soundbank) :
    (t.tick bank).outcome = (u.tick bank).outcome ∧ (t.tick bank).log = (u.tick bank).log ∧
      (t.tick bank).track.SoundsLike (u.tick bank).track := by
  by_cases hw : 0 < t.wait
  · have hw' : 0 < u.wait := h.wait ▸ hw
    rw [tick_of_waiting hw, tick_of_waiting hw', h.wait]
    exact ⟨rfl, rfl, ⟨h.heard, h.settings, h.next, rfl⟩⟩
  · have hready : t.wait = 0 := by omega
    have hready' : u.wait = 0 := h.wait ▸ hready
    have hlive := h.entry ht
    rw [tick_of_ready hready, tick_of_ready hready']
    refine ⟨decode_congr h.settings hlive, records_congr h.settings h.next hlive, h.heard, h.settings, ?_, ?_⟩
    · -- Each goes round its own loop, and the loops are of one size.
      show t.following t.entry = u.following u.entry
      rw [t.following_entry ht.next_lt, u.following_entry (h.onLoop ht).next_lt, h.next, h.loopSize]
    · exact congrArg UInt8.toNat (Prod.mk.inj hlive).2

/-- **An operation shows the same on both**, and they go on alike with the same host. -/
theorem apply {s s' : Track × σ} (h : s.1.SoundsLike s'.1) (hloop : s.1.OnLoop) (hhost : s.2 = s'.2)
    (op : Operation) :
    op.view s = op.view s' ∧ (op.apply s).1.SoundsLike (op.apply s').1 ∧ (op.apply s).2 = (op.apply s').2 := by
  cases op with
  | tick bank =>
    obtain ⟨houtcome, hlog, halike⟩ := h.tick hloop bank
    refine ⟨?_, halike, hhost⟩
    simp only [Operation.view, Operation.step?, Operation.apply, Option.map_some, houtcome, hlog, halike.next,
      halike.wait, hhost]
  | play bank =>
    obtain ⟨houtcome, hlog, halike⟩ := h.tick hloop bank
    simp only [Operation.view, Operation.step?, Operation.apply, play_fst, play_snd, Option.map_some, houtcome,
      hlog, halike.next, halike.wait, hhost]
    exact ⟨trivial, halike, trivial⟩
  | reset =>
    refine ⟨?_, ⟨h.heard, h.settings, rfl, rfl⟩, hhost⟩
    simp only [Operation.view, Operation.step?, Operation.apply, reset, hhost]
  | setInstrument number =>
    refine ⟨?_, ⟨h.heard, ?_, h.next, h.wait⟩, hhost⟩
    · simp only [Operation.view, Operation.step?, Operation.apply, setInstrument, h.next, h.wait, hhost]
    · simp only [Operation.apply, setInstrument, h.settings]
  | setVolume volume =>
    refine ⟨?_, ⟨h.heard, ?_, h.next, h.wait⟩, hhost⟩
    · simp only [Operation.view, Operation.step?, Operation.apply, setVolume, h.next, h.wait, hhost]
    · simp only [Operation.apply, setVolume, h.settings]

/-- **Tracks that sound alike show the same** in every run. -/
theorem observe_eq {s s' : Track × σ} (h : s.1.SoundsLike s'.1) (hloop : s.1.OnLoop) (hhost : s.2 = s'.2)
    (ops : List Operation) : observe s ops = observe s' ops := by
  induction ops generalizing s s' with
  | nil => rfl
  | cons op ops ih =>
    obtain ⟨hview, halike, hhost'⟩ := h.apply hloop hhost op
    rw [observe, observe, hview, ih halike (hloop.apply op) hhost']

end SoundsLike

/-! ## From the bytes -/

theorem getElem?_score_live (t : Track) {i : Nat} (hi : i < t.count) :
    ∃ e, t.score[i]? = some e ∧ t.data[3 * i]? = some e.note ∧ t.data[3 * i + 1]? = some e.duration := by
  have hfits := t.fits
  have hend : i * Entry.size + Entry.size ≤ t.data.size := by
    simp only [Entry.size] at *
    omega
  have hsize : 3 * i + 2 < t.data.size := by
    simp only [Entry.size] at hend
    omega
  refine ⟨Entry.ofBytes t.data (i * Entry.size) hend, ?_, ?_, ?_⟩
  · rw [score, List.getElem?_take_of_lt hi, Entry.getElem?_all, dif_pos hend]
  · rw [Array.getElem?_eq_getElem (by omega)]
    simp only [Entry.ofBytes, Entry.size, Nat.mul_comm]
  · rw [Array.getElem?_eq_getElem (by omega)]
    simp only [Entry.ofBytes, Entry.size, Nat.mul_comm]

/-- The data have the same notes and durations in their first `k` entries. -/
def SameBytes (k : Nat) (x y : Array UInt8) : Prop :=
  ∀ i < k, x[3 * i]? = y[3 * i]? ∧ x[3 * i + 1]? = y[3 * i + 1]?

instance (k : Nat) (x y : Array UInt8) : Decidable (SameBytes k x y) :=
  inferInstanceAs (Decidable (∀ i < k, x[3 * i]? = y[3 * i]? ∧ x[3 * i + 1]? = y[3 * i + 1]?))

theorem take_score_live {k : Nat} (ht : k ≤ t.count) (hu : k ≤ u.count) (h : SameBytes k t.data u.data) :
    (t.score.take k).map Entry.live = (u.score.take k).map Entry.live := by
  apply List.ext_getElem?
  intro i
  by_cases hi : i < k
  · obtain ⟨e, he, hnote, hduration⟩ := t.getElem?_score_live (Nat.lt_of_lt_of_le hi ht)
    obtain ⟨f, hf, hnote', hduration'⟩ := u.getElem?_score_live (Nat.lt_of_lt_of_le hi hu)
    obtain ⟨hsame, hsame'⟩ := h i hi
    rw [hnote, hnote'] at hsame
    rw [hduration, hduration'] at hsame'
    rw [List.getElem?_map, List.getElem?_map, List.getElem?_take_of_lt hi, List.getElem?_take_of_lt hi, he, hf]
    simp only [Option.map_some, Entry.live, Option.some.inj hsame, Option.some.inj hsame']
  · rw [List.getElem?_eq_none, List.getElem?_eq_none] <;> simp <;> omega

theorem loopSize_le_of_byte (t : Track) {i : Nat} (hi : i < t.count) (h : t.data[3 * i]? = some Entry.endMark) :
    t.score.loopSize ≤ i + 1 := by
  obtain ⟨e, he, hnote, -⟩ := t.getElem?_score_live hi
  rw [h] at hnote
  exact Score.loopSize_le_of_endMark he (Option.some.inj hnote).symm

variable {x y : Array UInt8} {m n k : Nat} {settings : Settings}

theorem soundsLike_of_new (ht : (new x m).map (·.withSettings settings) = .ok t)
    (hu : (new y n).map (·.withSettings settings) = .ok u) (hsame : SameBytes k x y)
    (hk : (∃ i, k = i + 1 ∧ i < m ∧ i < n ∧ x[3 * i]? = some Entry.endMark) ∨ k = m ∧ k = n) :
    t.SoundsLike u := by
  have hnew := isNew_of_new ht
  have hnew' := isNew_of_new hu
  obtain rfl := hnew.data_eq
  obtain rfl := hnew'.data_eq
  obtain rfl := hnew.count_eq
  obtain rfl := hnew'.count_eq
  refine ⟨?_, hnew.settings_eq.trans hnew'.settings_eq.symm, hnew.next_eq.trans hnew'.next_eq.symm,
    hnew.wait_eq.trans hnew'.wait_eq.symm⟩
  rcases hk with ⟨i, rfl, hi, hi', hend⟩ | ⟨rfl, hcount⟩
  · -- The end mark is one of the second track as well.
    have hend' : u.data[3 * i]? = some Entry.endMark := (hsame i (Nat.lt_succ_self i)).1 ▸ hend
    exact Score.heard_congr (t.loopSize_le_of_byte hi hend) (u.loopSize_le_of_byte hi' hend')
      (take_score_live hi hi' hsame)
  · exact Score.heard_congr t.loopSize_le_count (hcount ▸ u.loopSize_le_count)
      (take_score_live (Nat.le_refl _) (Nat.le_of_eq hcount) hsame)

/-- A track that is cut behind an end mark is one still. -/
theorem exists_new_extract {i : Nat} (ht : (new x m).map (·.withSettings settings) = .ok t) (hi : i < m) :
    ∃ u, (new (x.extract 0 (3 * (i + 1))) (i + 1)).map (·.withSettings settings) = .ok u := by
  have hnew := isNew_of_new ht
  have haddr := hnew.addressed
  have hfits := t.fits
  rw [hnew.count_eq, hnew.data_eq] at hfits
  simp only [Entry.size] at haddr hfits
  have hsize : (x.extract 0 (3 * (i + 1))).size = 3 * (i + 1) := by
    rw [Array.size_extract]
    omega
  rw [new_eq_ok (Nat.succ_pos i) (by simp only [Entry.size]; omega) (by simp only [Entry.size]; omega)]
  exact ⟨_, rfl⟩

theorem sameBytes_extract (x : Array UInt8) (k : Nat) : SameBytes k x (x.extract 0 (3 * k)) := by
  intro i hi
  have hget {j : Nat} (hj : j < 3 * k) : x[j]? = (x.extract 0 (3 * k))[j]? := by
    rw [← Array.getElem?_toList, ← Array.getElem?_toList, Array.toList_extract, List.extract_eq_take_drop]
    simp [hj]
  exact ⟨hget (by omega), hget (by omega)⟩

theorem observe_eq_of_new (ht : (new x m).map (·.withSettings settings) = .ok t)
    (hu : (new y n).map (·.withSettings settings) = .ok u) (hsame : SameBytes k x y)
    (hk : (∃ i, k = i + 1 ∧ i < m ∧ i < n ∧ x[3 * i]? = some Entry.endMark) ∨ k = m ∧ k = n)
    (host : σ) (ops : List Operation) : observe (t, host) ops = observe (u, host) ops := by
  have hnew := isNew_of_new ht
  apply SoundsLike.observe_eq
  · exact soundsLike_of_new ht hu hsame hk
  · exact onLoop_of_start hnew.next_eq hnew.wait_eq
  · rfl

/-- **Dead data never shows.** Two new tracks, set alike, whose notes and durations agree up to and with an
end mark of both, or in all entries of two tracks of one length, show the same in every run: every outcome,
every call, every cursor and all of the log. Flags, bytes behind the entries to be played and entries
behind an end mark have no part in it; so a track that is cut behind an end mark shows what it did before. -/
theorem dead_data_never_observed :
    (∀ x y m n k settings t u, (new x m).map (·.withSettings settings) = .ok t →
      (new y n).map (·.withSettings settings) = .ok u → SameBytes k x y →
      (∃ i, k = i + 1 ∧ i < m ∧ i < n ∧ x[3 * i]? = some Entry.endMark) ∨ k = m ∧ k = n →
      ∀ (σ : Type) [Host σ] (host : σ) (ops : List Operation), observe (t, host) ops = observe (u, host) ops) ∧
    ∀ x m i settings t, (new x m).map (·.withSettings settings) = .ok t → i < m →
      x[3 * i]? = some Entry.endMark →
      ∃ u, (new (x.extract 0 (3 * (i + 1))) (i + 1)).map (·.withSettings settings) = .ok u ∧
        ∀ (σ : Type) [Host σ] (host : σ) (ops : List Operation), observe (t, host) ops = observe (u, host) ops := by
  constructor
  · intro x y m n k settings t u ht hu hsame hk σ _ host ops
    exact observe_eq_of_new ht hu hsame hk host ops
  · intro x m i settings t ht hi hend
    obtain ⟨u, hu⟩ := exists_new_extract ht hi
    refine ⟨u, hu, fun σ _ host ops => ?_⟩
    exact observe_eq_of_new ht hu (sameBytes_extract x (i + 1)) (.inl ⟨i, rfl, hi, Nat.lt_succ_self i, hend⟩)
      host ops

/-- Two notes and an end mark, with something behind it in one track and nothing in the other, and with other
flags; then the first track cut behind its end mark. The end mark turns all of them back to the first note. -/
theorem dead_data_never_observed_end_mark :
    let x : Array UInt8 := #[33, 0, 0, 35, 1, 0, 0xFE, 1, 0, 40, 0, 0]
    let y : Array UInt8 := #[33, 0, 9, 35, 1, 8, 0xFE, 1, 7]
    let low : Soundbank := ⟨⟨65, [], rfl⟩, .reference⟩
    let host : Recorder 4 := ⟨[], 0, Nat.zero_le 4⟩
    let ops : List Operation := [.play .reference, .play .reference, .tick low, .play .reference, .tick low,
      .setVolume 3, .play .reference, .reset, .play low]
    ∃ t u v, (new x 4).map (·.withSettings ⟨2, 15, 42⟩) = .ok t ∧
      (new y 3).map (·.withSettings ⟨2, 15, 42⟩) = .ok u ∧
      (new (x.extract 0 9) 3).map (·.withSettings ⟨2, 15, 42⟩) = .ok v ∧
      observe (t, host) ops = observe (u, host) ops ∧ observe (t, host) ops = observe (v, host) ops ∧
      (observe (t, host) ops).map (fun v => (v.next, v.host.size)) =
        [(1, 1), (2, 2), (2, 2), (0, 2), (0, 2), (0, 2), (1, 3), (0, 3), (1, 3)] := by
  intro x y low host ops
  have ht : (new x 4).map (·.withSettings ⟨2, 15, 42⟩) =
      .ok ⟨x, 4, ⟨2, 15, 42⟩, 0, 0, by decide, by decide⟩ := rfl
  have hu : (new y 3).map (·.withSettings ⟨2, 15, 42⟩) =
      .ok ⟨y, 3, ⟨2, 15, 42⟩, 0, 0, by decide, by decide⟩ := rfl
  have hsame : SameBytes 3 x y := by decide
  obtain ⟨hdead, hcut⟩ := dead_data_never_observed
  obtain ⟨v, hv, hobserve⟩ := hcut x 4 2 ⟨2, 15, 42⟩ _ ht (by decide) rfl
  refine ⟨_, _, v, ht, hu, hv, ?_, hobserve _ host ops, by decide⟩
  exact hdead x y 4 3 3 ⟨2, 15, 42⟩ _ _ ht hu hsame (.inl ⟨2, rfl, by decide, by decide, rfl⟩) _ host ops

end Track

end Chiptune
