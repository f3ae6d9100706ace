import Chiptune.Proofs.Track.Run
/-!
# The schedule of a track

Where a track stands after any number of ticks, in closed form. The invariant is `Phase`: either the entry
at the cursor starts now, or the cursor is one past an entry whose ticks are not over yet, and the wait is
what is left of them. One tick takes the phase of tick `r` of a loop to that of the next (`phase_tick`),
round the end of the loop; so a run of any length is known by its remainder modulo the period
(`phase_after`).

Main statement `tick_after_new`: what each tick of a new track does.
-/
namespace Chiptune

/-- Entry `e`, number `i` of the loop, is on at tick `r` of it. -/
structure Score.On (s : Score) (r i : Nat) (e : Entry) : Prop where
  inLoop : i < s.loopSize
  entry : s[i]? = some e
  started : s.start i ≤ r
  lasts : r < s.start i + e.ticks

/-- At most one entry is on at a time. -/
theorem Score.On.index_unique {s : Score} {r i j : Nat} {e f : Entry} (h : s.On r i e) (h' : s.On r j f) :
    j = i := by
  have hi := h.lasts
  have hj := h'.lasts
  rw [← start_succ h.entry] at hi
  rw [← start_succ h'.entry] at hj
  rcases Nat.lt_trichotomy i j with hlt | heq | hgt
  · have : s.start (i + 1) ≤ s.start j := start_le_start hlt
    have := h'.started
    omega
  · exact heq.symm
  · have : s.start (j + 1) ≤ s.start i := start_le_start hgt
    have := h.started
    omega

/-- The cursor's position and wait before tick `r` of a loop over a score. -/
inductive Score.Phase (s : Score) : Nat → Nat → Nat → Prop where
  /-- Entry `i` starts. -/
  | due {i : Nat} (hi : i < s.loopSize) : Phase s (s.start i) i 0
  /-- Entry `i` was decoded, and `wait` of its ticks are left. -/
  | held {i r wait : Nat} {e : Entry} (hi : i < s.loopSize) (he : s[i]? = some e) (hpos : 0 < wait)
      (hle : wait ≤ e.duration.toNat) (hr : r + wait = s.start (i + 1)) :
      Phase s r ((i + 1) % s.loopSize) wait

namespace Score.Phase

variable {s : Score} {i r wait : Nat} {e : Entry}

theorem first (h : 0 < s.loopSize) : Phase s 0 0 0 := by
  have := Phase.due h
  rwa [start_zero] at this

/-- A loop starts with the cursor on the first entry and nothing to wait for. -/
theorem eq_zero {next : Nat} (h : Phase s r next wait) (hr : r = 0) : next = 0 ∧ wait = 0 := by
  cases h with
  | due hi =>
    refine ⟨?_, rfl⟩
    by_contra hne
    have : s.start 0 < s.start next :=
      start_lt_start (by omega) (Nat.lt_of_lt_of_le (by omega) s.loopSize_le_length)
    omega
  | held hi he hpos hle hr' =>
    rw [start_succ he] at hr'
    simp only [Entry.ticks] at hr'
    omega

/-- A tick that leaves `wait` of entry `i` to be waited comes to the next phase. At the end of the loop
that is its start. -/
theorem next (hi : i < s.loopSize) (he : s[i]? = some e) (hle : wait ≤ e.duration.toNat)
    (hr : r + (wait + 1) = s.start (i + 1)) :
    Phase s ((r + 1) % s.period) ((i + 1) % s.loopSize) wait := by
  have hend := start_succ_le_period hi
  cases wait with
  | zero =>
    -- The entry is over: the next one starts, or the loop does.
    by_cases hlast : i + 1 < s.loopSize
    · have hlt := start_lt_period hlast
      rw [hr, Nat.mod_eq_of_lt hlt, Nat.mod_eq_of_lt hlast]
      exact .due hlast
    · obtain hsize : i + 1 = s.loopSize := by omega
      have hperiod : s.start (i + 1) = s.period := by rw [hsize, period]
      rw [hr, hperiod, hsize, Nat.mod_self, Nat.mod_self]
      exact first (Nat.zero_lt_of_lt hi)
  | succ wait =>
    rw [Nat.mod_eq_of_lt (by omega)]
    exact .held hi he (Nat.succ_pos _) hle (by omega)

end Score.Phase

namespace Track

variable {t : Track}

/-- **One tick takes a phase to the next.** -/
theorem phase_tick (bank : Soundbank) {r : Nat} (h : t.score.Phase r t.next t.wait) :
    t.score.Phase ((r + 1) % t.score.period) (t.tick bank).track.next (t.tick bank).track.wait := by
  generalize hnext : t.next = next at h
  generalize hwait : t.wait = wait at h
  cases h with
  | due hi =>
    rw [tick_of_ready hwait]
    have hget := t.getElem?_score_next
    have hfollow := t.following_entry (hnext ▸ hi)
    rw [hnext] at hget hfollow
    simp only [pass, hfollow]
    refine .next hi hget (Nat.le_refl _) ?_
    rw [Score.start_succ hget]
    rfl
  | held hi he hpos hle hr =>
    rw [tick_of_waiting (by omega)]
    simp only [hnext, hwait]
    exact .next hi he (by omega) (by omega)

/-- A run from the start is in the phase of its remainder. -/
theorem phase_after (bank : Soundbank) (hnext : t.next = 0) (hwait : t.wait = 0) (n : Nat) :
    t.score.Phase (n % t.score.period) (t.after bank n).next (t.after bank n).wait := by
  induction n with
  | zero =>
    rw [Nat.zero_mod, after_zero, hnext, hwait]
    exact .first t.loopSize_pos
  | succ n ih =>
    -- The step is about the track `n` ticks later, whose score is the same.
    have hscore := (t.after_sameSong bank n).score
    rw [← hscore] at ih ⊢
    have hstep := phase_tick bank ih
    rwa [Nat.mod_add_mod] at hstep

/-! ## A whole run -/

/-- Tick `n` of a run does what the score says for tick `n % period` of a loop: in the first tick of the
entry that is on it decodes that entry, and in the others it waits. -/
def OnSchedule (t : Track) (bank : Soundbank) (n : Nat) : Prop :=
  let now := t.after bank n
  let step := now.tick bank
  let r := n % t.score.period
  ∃ i e, t.score.On r i e ∧ (∀ j f, t.score.On r j f → j = i) ∧ step.track.SameSong t ∧
    (r = t.score.start i →
      Decodes bank t.settings e step.outcome ∧ step.track.next = (i + 1) % t.score.loopSize ∧
        step.track.wait = e.duration.toNat) ∧
    (t.score.start i < r →
      step.outcome = .waited (t.score.start i + e.ticks - 1 - r) ∧
        step.track = { now with wait := t.score.start i + e.ticks - 1 - r })

/-- What a tick does in a phase. -/
theorem onSchedule_of_phase {bank : Soundbank} {n : Nat}
    (h : t.score.Phase (n % t.score.period) (t.after bank n).next (t.after bank n).wait) :
    t.OnSchedule bank n := by
  have hsong := t.after_sameSong bank n
  have hstep := ((t.after bank n).tick_sameSong bank).trans hsong
  unfold OnSchedule
  generalize hnow : t.after bank n = now at h hsong hstep ⊢
  generalize n % t.score.period = r at h ⊢
  generalize hnext : now.next = next at h
  generalize hwait : now.wait = wait at h
  cases h with
  | due hi =>
    have hget := now.getElem?_score_next
    have hfollow := now.following_entry (by rw [hnext, hsong.score]; exact hi)
    rw [hnext, hsong.score] at hget hfollow
    have hon : t.score.On (t.score.start next) next now.entry :=
      ⟨hi, hget, Nat.le_refl _, by simp only [Entry.ticks]; omega⟩
    refine ⟨next, now.entry, hon, fun j f hj => hon.index_unique hj, hstep, fun _ => ?_, fun hlt => ?_⟩
    · rw [tick_of_ready hwait, ← hsong.settings]
      exact ⟨now.decode_spec bank now.entry, hfollow, rfl⟩
    · omega
  | @held i _ _ e hi he hpos hle hr =>
    rw [Score.start_succ he] at hr
    have hticks : e.ticks = e.duration.toNat + 1 := rfl
    have hon : t.score.On r i e := ⟨hi, he, by omega, by omega⟩
    refine ⟨i, e, hon, fun j f hj => hon.index_unique hj, hstep, fun heq => ?_, fun _ => ?_⟩
    · omega
    · have hleft : t.score.start i + e.ticks - 1 - r = now.wait - 1 := by omega
      rw [tick_of_waiting (by omega), hleft]
      exact ⟨rfl, rfl⟩

/-- After a whole loop a track is back at its start. -/
theorem after_period (bank : Soundbank) (hnext : t.next = 0) (hwait : t.wait = 0) :
    t.after bank t.score.period = t := by
  have hsong := t.after_sameSong bank t.score.period
  have hphase := phase_after bank hnext hwait t.score.period
  obtain ⟨hn, hw⟩ := hphase.eq_zero (Nat.mod_self _)
  exact Track.ext hsong.data hsong.count hsong.settings (hn.trans hnext.symm) (hw.trans hwait.symm)

/-- **Playback in closed form.** The score of a new track is what reading its data by position gives, each
of its ticks is the one that the score tells, and it repeats itself exactly, from the first tick on, with
the period of the loop. -/
theorem tick_after_new {data : Array UInt8} {count : Nat} {settings : Settings}
    (ht : (new data count).map (·.withSettings settings) = .ok t) (bank : Soundbank) (n : Nat) :
    t.settings = settings ∧ t.score.length = count ∧ (∀ i < count, t.score[i]? = Entry.read data i) ∧
      t.OnSchedule bank n ∧ t.after bank (n + t.score.period) = t.after bank n := by
  have hnew := isNew_of_new ht
  refine ⟨hnew.settings_eq, ?_, fun i hi => ?_, ?_, ?_⟩
  · rw [length_score, hnew.count_eq]
  · rw [← hnew.data_eq]
    rw [← hnew.count_eq] at hi
    exact t.getElem?_score hi (hnew.count_eq ▸ hnew.addressed)
  · exact onSchedule_of_phase (phase_after bank hnew.next_eq hnew.wait_eq n)
  · rw [Nat.add_comm, after_add, after_period bank hnew.next_eq hnew.wait_eq]

/-- Three entries are heard, an end mark being the third, and a loop takes six ticks. -/
theorem tick_after_new_end_mark :
    ∃ t, (new #[33, 2, 0, 70, 0, 0, 0xFE, 1, 0, 5, 5, 5] 4).map (·.withSettings ⟨2, 15, 42⟩) = .ok t ∧
      t.score.loopSize = 3 ∧ t.score.period = 6 ∧ t.OnSchedule .reference 9 ∧
      t.after .reference (9 + t.score.period) = t.after .reference 9 := by
  have ht : (new #[33, 2, 0, 70, 0, 0, 0xFE, 1, 0, 5, 5, 5] 4).map (·.withSettings ⟨2, 15, 42⟩) =
      .ok ⟨#[33, 2, 0, 70, 0, 0, 0xFE, 1, 0, 5, 5, 5], 4, ⟨2, 15, 42⟩, 0, 0, by decide, by decide⟩ := rfl
  exact ⟨_, ht, by decide, by decide, (tick_after_new ht .reference 9).2.2.2⟩

end Track

end Chiptune
