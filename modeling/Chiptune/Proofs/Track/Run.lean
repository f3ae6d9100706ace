import Chiptune.Host
import Chiptune.Proofs.Track.Score
/-!
# Runs of a track

`Track.after` is a track a number of ticks later, and `Track.operate` a track with a host after any
operations in any order, each tick over a sound bank of its own.

`Decodes` says what decoding an entry is to do, apart from the function that does it (`decode_spec`).
Two things hold along every run: the song is not touched (`SameSong`), and the cursor stays on the loop
with a wait of one byte (`OnLoop`).
-/
namespace Chiptune

/-- What decoding an entry does under a sound bank and settings: a note that the tuning has sounds, any
other is silent and an end mark shows. -/
inductive Decodes (bank : Soundbank) (s : Settings) (e : Entry) : Outcome → Prop where
  | played {hz : UInt16} {instrument : Instrument}
      (hnote : bank.tuning.frequencies[e.note.toNat]? = some hz)
      (hinstrument : bank.instruments.instruments[s.instrument.toNat %
        bank.instruments.instruments.length]? = some instrument) :
      Decodes bank s e (.played {
        frequency := hz.toUInt32
        slideTo := 0
        attack := 0
        decay := 0
        sustain := 0
        release := .ofNat (e.duration.toNat * s.ticks.toNat)
        volume := s.volume.toUInt32
        channel := instrument.channel.code.toUInt32
        mode := instrument.duty.code.toUInt32 })
  | looped (hnote : bank.tuning.frequencies.length ≤ e.note.toNat) (hend : e.note = Entry.endMark) :
      Decodes bank s e .looped
  | rest (hnote : bank.tuning.frequencies.length ≤ e.note.toNat) (hend : e.note ≠ Entry.endMark) :
      Decodes bank s e .rest

/-- A release is a product of two bytes. -/
theorem mul_bytes_le (a b : UInt8) : a.toNat * b.toNat ≤ 255 * 255 :=
  Nat.mul_le_mul (Nat.le_of_lt_succ a.toNat_lt) (Nat.le_of_lt_succ b.toNat_lt)

theorem InstrumentBank.getElem?_resolve (b : InstrumentBank) (number : UInt8) :
    b.instruments[number.toNat % b.instruments.length]? = some (b.resolve number) :=
  List.getElem?_eq_getElem _

attribute [ext] Track

namespace Track

variable {t u : Track} {bank : Soundbank}

/-! ## What a tick can do -/

theorem decode_spec (t : Track) (bank : Soundbank) (e : Entry) :
    Decodes bank t.settings e (t.decode bank e) := by
  unfold decode
  split
  · rename_i hz hnote
    have hrelease : e.duration.toUInt32 * t.settings.ticks.toUInt32 =
        UInt32.ofNat (e.duration.toNat * t.settings.ticks.toNat) := by
      simp [UInt32.ofNat_mul]
    unfold tone
    rw [hrelease]
    exact .played hnote (bank.instruments.getElem?_resolve _)
  · rename_i hnote
    have hlen : bank.tuning.frequencies.length ≤ e.note.toNat := List.getElem?_eq_none_iff.1 hnote
    split
    · rename_i hend
      exact .looped hlen hend
    · rename_i hend
      exact .rest hlen hend

theorem tick_of_waiting (h : 0 < t.wait) :
    t.tick bank = ⟨.waited (t.wait - 1), { t with wait := t.wait - 1 }, []⟩ := if_pos h

theorem tick_of_ready (h : t.wait = 0) :
    t.tick bank = ⟨t.decode bank t.entry, t.pass t.entry, t.records bank t.entry⟩ :=
  if_neg (by omega)

/-! ## Making a track -/

theorem new_eq_ok {data : Array UInt8} {count : Nat} (hc : 0 < count)
    (haddr : count * Entry.size < word64Limit) (hfits : count * Entry.size ≤ data.size) :
    new data count = .ok ⟨data, count, {}, 0, 0, hfits, hc⟩ := by
  simp [new, word64?, hc, haddr, hfits]

/-- A track is made exactly of a non-zero number of entries that have addresses and are in the data. -/
theorem exists_new_eq_ok_iff {data : Array UInt8} {count : Nat} :
    (∃ t, new data count = .ok t) ↔
      0 < count ∧ count * Entry.size < word64Limit ∧ count * Entry.size ≤ data.size := by
  constructor
  · rintro ⟨t, h⟩
    unfold new word64? at h
    split at h
    · rename_i hc
      split at h
      · cases h
      · rename_i haddr
        split at h
        · rename_i hfits
          exact ⟨hc, (Option.ite_none_right_eq_some.1 haddr).1, hfits⟩
        · cases h
    · cases h
  · rintro ⟨hc, haddr, hfits⟩
    exact ⟨_, new_eq_ok hc haddr hfits⟩

/-- A new track is at the start of its data. -/
structure IsNew (data : Array UInt8) (count : Nat) (settings : Settings) (t : Track) : Prop where
  data_eq : t.data = data
  count_eq : t.count = count
  settings_eq : t.settings = settings
  next_eq : t.next = 0
  wait_eq : t.wait = 0
  addressed : count * Entry.size < word64Limit

theorem isNew_of_new {data : Array UInt8} {count : Nat} {settings : Settings}
    (h : (new data count).map (·.withSettings settings) = .ok t) : IsNew data count settings t := by
  cases hnew : new data count with
  | error fault => simp [hnew, Except.map] at h
  | ok t₀ =>
    obtain ⟨hc, haddr, hfits⟩ := exists_new_eq_ok_iff.1 ⟨t₀, hnew⟩
    rw [new_eq_ok hc haddr hfits] at h
    obtain rfl := Except.ok.inj h
    exact ⟨rfl, rfl, rfl, rfl, rfl, haddr⟩

/-! ## The song -/

/-- Tracks over the same entries with the same settings: only their cursors may differ. -/
structure SameSong (t u : Track) : Prop where
  data : t.data = u.data
  count : t.count = u.count
  settings : t.settings = u.settings

theorem SameSong.rfl : t.SameSong t := ⟨.refl _, .refl _, .refl _⟩

theorem SameSong.trans {v : Track} (h : t.SameSong u) (h' : u.SameSong v) : t.SameSong v :=
  ⟨h.data.trans h'.data, h.count.trans h'.count, h.settings.trans h'.settings⟩

theorem SameSong.score (h : t.SameSong u) : t.score = u.score := score_congr h.data h.count

theorem tick_sameSong (t : Track) (bank : Soundbank) : (t.tick bank).track.SameSong t := by
  unfold tick
  split <;> exact ⟨rfl, rfl, rfl⟩

/-! ## Ticks in a row -/

/-- The track a number of ticks later. -/
def after (t : Track) (bank : Soundbank) : Nat → Track
  | 0 => t
  | n + 1 => ((t.after bank n).tick bank).track

@[simp] theorem after_zero (t : Track) (bank : Soundbank) : t.after bank 0 = t := rfl

theorem after_succ (t : Track) (bank : Soundbank) (n : Nat) :
    t.after bank (n + 1) = ((t.after bank n).tick bank).track := rfl

theorem after_sameSong (t : Track) (bank : Soundbank) (n : Nat) : (t.after bank n).SameSong t := by
  induction n with
  | zero => exact .rfl
  | succ n ih => exact (tick_sameSong _ bank).trans ih

theorem after_add (t : Track) (bank : Soundbank) (m n : Nat) :
    t.after bank (m + n) = (t.after bank m).after bank n := by
  induction n with
  | zero => rfl
  | succ n ih => rw [Nat.add_succ, after_succ, ih, after_succ]

/-! ## Operations in any order -/

/-- Something done to a track, with a host at hand. -/
inductive Operation where
  /-- A tick that leaves the host alone. -/
  | tick (bank : Soundbank)
  /-- A tick whose tone is requested from the host. -/
  | play (bank : Soundbank)
  | reset
  | setInstrument (number : UInt8)
  | setVolume (volume : UInt8)

variable {σ : Type} [Host σ]

/-- The track and the host after an operation. -/
def Operation.apply (s : Track × σ) : Operation → Track × σ
  | .tick bank => ((s.1.tick bank).track, s.2)
  | .play bank => ((s.1.play bank s.2).1.track, (s.1.play bank s.2).2)
  | .reset => (s.1.reset, s.2)
  | .setInstrument number => (s.1.setInstrument number, s.2)
  | .setVolume volume => (s.1.setVolume volume, s.2)

/-- The track and the host after some operations, the first one first. -/
def operate (s : Track × σ) (ops : List Operation) : Track × σ := ops.foldl Operation.apply s

/-- The host has no part in what a tick does. -/
theorem play_fst (t : Track) (bank : Soundbank) (host : σ) : (t.play bank host).1 = t.tick bank := by
  unfold play
  simp only
  split <;> rfl

theorem play_snd (t : Track) (bank : Soundbank) (host : σ) :
    (t.play bank host).2 = match (t.tick bank).outcome.tone? with
      | some tone => tone.request host
      | none => host := by
  unfold play
  cases h : (t.tick bank).outcome <;> simp only [h, Outcome.tone?]

/-! ### What every operation keeps -/

/-- Tracks over the same entries whose tones are released alike; instrument and volume may differ. -/
structure SameEntries (t u : Track) : Prop where
  data : t.data = u.data
  count : t.count = u.count
  ticks : t.settings.ticks = u.settings.ticks

theorem SameEntries.rfl : t.SameEntries t := ⟨.refl _, .refl _, .refl _⟩

theorem SameEntries.trans {v : Track} (h : t.SameEntries u) (h' : u.SameEntries v) : t.SameEntries v :=
  ⟨h.data.trans h'.data, h.count.trans h'.count, h.ticks.trans h'.ticks⟩

theorem SameEntries.score (h : t.SameEntries u) : t.score = u.score := score_congr h.data h.count

theorem SameSong.sameEntries (h : t.SameSong u) : t.SameEntries u :=
  ⟨h.data, h.count, by rw [h.settings]⟩

theorem apply_sameEntries (s : Track × σ) (op : Operation) : (op.apply s).1.SameEntries s.1 := by
  cases op with
  | tick bank => exact (tick_sameSong s.1 bank).sameEntries
  | play bank =>
    simp only [Operation.apply, play_fst]
    exact (tick_sameSong s.1 bank).sameEntries
  | reset => exact ⟨rfl, rfl, rfl⟩
  | setInstrument number => exact ⟨rfl, rfl, rfl⟩
  | setVolume volume => exact ⟨rfl, rfl, rfl⟩

theorem operate_sameEntries (s : Track × σ) (ops : List Operation) :
    (operate s ops).1.SameEntries s.1 := by
  induction ops generalizing s with
  | nil => exact .rfl
  | cons op ops ih => exact (ih (op.apply s)).trans (apply_sameEntries s op)

/-- The cursor is on the loop, and its wait is a byte. -/
structure OnLoop (t : Track) : Prop where
  next_lt : t.next < t.score.loopSize
  wait_le : t.wait ≤ 255

theorem onLoop_of_start (hnext : t.next = 0) (hwait : t.wait = 0) : t.OnLoop :=
  ⟨hnext ▸ t.loopSize_pos, by omega⟩

theorem OnLoop.tick (h : t.OnLoop) (bank : Soundbank) : (t.tick bank).track.OnLoop := by
  by_cases hw : 0 < t.wait
  · have hwait := h.wait_le
    rw [tick_of_waiting hw]
    exact ⟨h.next_lt, Nat.le_trans (Nat.sub_le _ _) hwait⟩
  · rw [tick_of_ready (by omega)]
    refine ⟨?_, Nat.le_of_lt_succ t.entry.duration.toNat_lt⟩
    show t.following t.entry < t.score.loopSize
    rw [t.following_entry h.next_lt]
    exact Nat.mod_lt _ t.loopSize_pos

theorem OnLoop.apply {s : Track × σ} (h : s.1.OnLoop) (op : Operation) : (op.apply s).1.OnLoop := by
  cases op with
  | tick bank => exact h.tick bank
  | play bank =>
    simp only [Operation.apply, play_fst]
    exact h.tick bank
  | reset => exact onLoop_of_start rfl rfl
  | setInstrument number => exact ⟨h.next_lt, h.wait_le⟩
  | setVolume volume => exact ⟨h.next_lt, h.wait_le⟩

theorem OnLoop.operate {s : Track × σ} (h : s.1.OnLoop) (ops : List Operation) :
    (operate s ops).1.OnLoop := by
  induction ops generalizing s with
  | nil => exact h
  | cons op ops ih => exact ih (h.apply op)

end Track

end Chiptune
