import Chiptune.Proofs.Tone
import Chiptune.Proofs.Track.Run
/-!
# The calls of a track

A tick makes one call at most, and that is the packed tone of the entry it decodes (`mem_calls`,
`decodes_of_played`). The tone has no slide and no envelope but its release, a product of two bytes; so nothing
of it is lost in its words, and `Carries` says where everything is (`carries_of_decodes`). A release of more
than a byte reaches into the place of the decay, and nowhere else.

Main statement `calls_carry_entry`.
-/
namespace Chiptune

/-! ## The words of a tone that is only released -/

section
variable {t : Tone}

theorem toNat_envelope_pack (hattack : t.attack = 0) (hdecay : t.decay = 0) (hsustain : t.sustain = 0)
    (hrelease : t.release.toNat < 2 ^ 24) : t.pack.envelope.toNat = 256 * t.release.toNat := by
  have hword : t.pack.envelope = t.release <<< releaseShift := by
    simp only [Tone.pack, hattack, hdecay, hsustain, UInt32.zero_shiftLeft, UInt32.zero_or]
  have hshift : releaseShift.toNat % 32 = 8 := rfl
  rw [hword, UInt32.toNat_shiftLeft, hshift, Nat.shiftLeft_eq, Nat.mod_eq_of_lt (by omega), Nat.mul_comm]

theorem frequency_pack (hslideTo : t.slideTo = 0) : t.pack.frequency = t.frequency := by
  simp only [Tone.pack, hslideTo, UInt32.zero_shiftLeft, UInt32.or_zero]

end

theorem toNat_shift {w s : UInt32} (hs : s.toNat < 32) : (w >>> s).toNat = w.toNat / 2 ^ s.toNat := by
  rw [UInt32.toNat_shiftRight, Nat.mod_eq_of_lt hs, Nat.shiftRight_eq_div_pow]

theorem byte_eq_zero_iff {w : UInt32} : w &&& 0xFF = 0 ↔ w.toNat % 256 = 0 := by
  have hbyte : (w &&& 0xFF).toNat = w.toNat % 256 := by
    rw [UInt32.toNat_and]
    exact Nat.and_two_pow_sub_one_eq_mod w.toNat 8
  rw [← UInt32.toNat_inj, hbyte]
  rfl

/-- A word that holds a release of two bytes, one byte up, byte by byte. -/
theorem bytes_of_release {w : UInt32} {r : Nat} (hw : w.toNat = 256 * r) (hr : r < 2 ^ 16) :
    w >>> attackShift &&& 0xFF = 0 ∧ (w >>> decayShift &&& 0xFF = 0 ↔ r ≤ 255) ∧
      (w >>> releaseShift).toNat = r ∧ w &&& 0xFF = 0 := by
  have hattack : (w >>> attackShift).toNat = w.toNat / 2 ^ 24 := toNat_shift (by decide)
  have hdecay : (w >>> decayShift).toNat = w.toNat / 2 ^ 16 := toNat_shift (by decide)
  have hrelease : (w >>> releaseShift).toNat = w.toNat / 2 ^ 8 := toNat_shift (by decide)
  rw [byte_eq_zero_iff, byte_eq_zero_iff, byte_eq_zero_iff, hattack, hdecay, hrelease, hw]
  omega

/-- The flags of an instrument are its two codes. -/
theorem flags_of_codes (c : Channel) (d : Duty) :
    let flags := c.code.toUInt32 ||| d.code.toUInt32 <<< modeShift
    flags < 16 ∧ Channel.ofBits flags.toUInt8 = c ∧ Duty.ofBits (flags >>> modeShift).toUInt8 = d := by
  cases c <;> cases d <;> decide

/-! ## What a call carries -/

/-- The words of a call that an entry makes under a sound bank and settings. -/
structure HostCall.Carries (c : HostCall) (bank : Soundbank) (s : Settings) (e : Entry) : Prop where
  /-- The frequency word is the frequency of the note. -/
  frequency : bank.tuning.frequencies[e.note.toNat]?.map UInt16.toNat = some c.frequency.toNat
  frequency_lt : c.frequency.toNat < 2 ^ 16
  /-- The envelope word is the release, one byte up. -/
  envelope : c.envelope.toNat = 256 * (e.duration.toNat * s.ticks.toNat)
  envelope_lt : c.envelope.toNat < 2 ^ 24
  attack : c.unpack.attack = 0
  sustain : c.unpack.sustain = 0
  /-- The release is there in full. -/
  release : (c.envelope >>> releaseShift).toNat = e.duration.toNat * s.ticks.toNat
  /-- A release of one byte keeps out of the decay, and no other does. -/
  decay : c.unpack.decay = 0 ↔ e.duration.toNat * s.ticks.toNat ≤ 255
  volume : c.volume.toNat = s.volume.toNat
  volume_le : c.volume.toNat ≤ 255
  flags_lt : c.flags.toNat < 16
  /-- Both codes of the instrument are in the flags word. -/
  instrument : bank.instruments.instruments[s.instrument.toNat % bank.instruments.instruments.length]? =
    some ⟨.ofBits c.flags.toUInt8, .ofBits (c.flags >>> modeShift).toUInt8⟩

theorem carries_of_decodes {bank : Soundbank} {s : Settings} {e : Entry} {tone : Tone}
    (h : Decodes bank s e (.played tone)) : tone.pack.Carries bank s e := by
  cases h with
  | @played hz instrument hnote hinstrument =>
    generalize hcall : Tone.pack _ = call
    have hrelease : (UInt32.ofNat (e.duration.toNat * s.ticks.toNat)).toNat = e.duration.toNat * s.ticks.toNat :=
      UInt32.toNat_ofNat_of_lt (Nat.lt_of_le_of_lt (mul_bytes_le _ _) (by decide))
    have hle := mul_bytes_le e.duration s.ticks
    have henvelope : call.envelope.toNat = 256 * (e.duration.toNat * s.ticks.toNat) := by
      rw [← hcall, toNat_envelope_pack rfl rfl rfl (Nat.lt_of_le_of_lt (Nat.le_of_eq hrelease) (by omega)), hrelease]
    have hfrequency : call.frequency.toNat = hz.toNat := by
      rw [← hcall, frequency_pack rfl, UInt16.toNat_toUInt32]
    have hvolume : call.volume.toNat = s.volume.toNat := by
      rw [← hcall]
      exact UInt8.toNat_toUInt32 s.volume
    obtain ⟨hflags, hchannel, hduty⟩ := flags_of_codes instrument.channel instrument.duty
    have hcodes : call.flags = instrument.channel.code.toUInt32 ||| instrument.duty.code.toUInt32 <<< modeShift := by
      rw [← hcall]
      rfl
    rw [← hcodes] at hflags hchannel hduty
    obtain ⟨hattack, hdecay, hshifted, hsustain⟩ := bytes_of_release henvelope (by omega)
    exact {
      frequency := by rw [hnote, hfrequency, Option.map_some]
      frequency_lt := hfrequency ▸ hz.toNat_lt
      envelope := henvelope
      envelope_lt := by omega
      attack := hattack
      sustain := hsustain
      release := hshifted
      decay := hdecay
      volume := hvolume
      volume_le := hvolume ▸ Nat.le_of_lt_succ s.volume.toNat_lt
      flags_lt := UInt32.lt_iff_toNat_lt.1 hflags
      instrument := by rw [hinstrument, hchannel, hduty] }

/-! ## The calls of a tick -/

namespace Track

variable {σ : Type} [Host σ] {t : Track} {bank : Soundbank} {call : HostCall}

/-- The calls of one tick, as a host takes them that keeps all of them. -/
def calls (t : Track) (bank : Soundbank) : List HostCall :=
  (t.play bank (⟨[], fun taken c => taken ++ [c]⟩ : Callback (List HostCall))).2.state

theorem calls_eq (t : Track) (bank : Soundbank) :
    t.calls bank = ((t.tick bank).outcome.tone?.map Tone.pack).toList := by
  rw [calls, play_snd]
  cases (t.tick bank).outcome.tone? <;> rfl

/-- **What sounds is the entry at the cursor**, in a tick that decodes it. -/
theorem decodes_of_played {tone : Tone} (h : (t.tick bank).outcome = .played tone) :
    t.wait = 0 ∧ Decodes bank t.settings t.entry (.played tone) := by
  by_cases hwait : 0 < t.wait
  · rw [tick_of_waiting hwait] at h
    cases h
  · have hready : t.wait = 0 := Nat.eq_zero_of_not_pos hwait
    rw [tick_of_ready hready] at h
    exact ⟨hready, h ▸ t.decode_spec bank t.entry⟩

theorem mem_calls : call ∈ t.calls bank ↔ ∃ tone, (t.tick bank).outcome = .played tone ∧ call = tone.pack := by
  rw [calls_eq]
  cases (t.tick bank).outcome with
  | played tone => simp [Outcome.tone?]
  | waited left => simp [Outcome.tone?]
  | rest => simp [Outcome.tone?]
  | looped => simp [Outcome.tone?]

/-- **What the host receives is in range and loses nothing.** Whatever has been done to a new track, a call that
its next tick makes, over any sound bank, is that of the entry at the cursor. Its words carry the frequency of
the note, the release in full, the volume and the instrument; and the release is the wait after the tick, times
the release ticks that the track was made with. -/
theorem calls_carry_entry {data : Array UInt8} {count : Nat} {settings : Settings}
    (ht : (new data count).map (·.withSettings settings) = .ok t) (host : σ) (ops : List Operation)
    (bank : Soundbank) :
    let s := operate (t, host) ops
    let later := (s.1.play bank s.2).1.track
    ∀ call ∈ s.1.calls bank, ∃ e, Entry.read data s.1.next = some e ∧ s.1.wait = 0 ∧
      call.Carries bank s.1.settings e ∧ s.1.settings.ticks = settings.ticks ∧
      later.wait = e.duration.toNat ∧
      (call.envelope >>> releaseShift).toNat = later.wait * settings.ticks.toNat := by
  intro s later call hcall
  have hnew := isNew_of_new ht
  have hentries : s.1.SameEntries t := operate_sameEntries (t, host) ops
  have hticks : s.1.settings.ticks = settings.ticks := by rw [hentries.ticks, hnew.settings_eq]
  have hread : Entry.read data s.1.next = some s.1.entry := by
    have haddr : s.1.count * Entry.size < word64Limit := by
      rw [hentries.count, hnew.count_eq]
      exact hnew.addressed
    rw [← hnew.data_eq, ← hentries.data, ← s.1.getElem?_score s.1.next_lt haddr, s.1.getElem?_score_next]
  obtain ⟨tone, hplayed, rfl⟩ := mem_calls.1 hcall
  obtain ⟨hready, hdecodes⟩ := decodes_of_played hplayed
  have hwait : later.wait = s.1.entry.duration.toNat := by
    show (s.1.play bank s.2).1.track.wait = _
    rw [play_fst, tick_of_ready hready]
    rfl
  have hcarries := carries_of_decodes hdecodes
  refine ⟨s.1.entry, hread, hready, hcarries, hticks, hwait, ?_⟩
  rw [hcarries.release, hwait, hticks]

/-- The longest release there is, as the second note of a track whose instrument and volume are set before it:
it reaches into the place of the decay. -/
theorem calls_carry_entry_longest :
    let data : Array UInt8 := #[12, 0, 0, 33, 255, 0]
    let host : Recorder 4 := ⟨[], 0, Nat.zero_le 4⟩
    let ops : List Operation := [.play .reference, .setInstrument 14, .setVolume 255]
    let call : HostCall := ⟨440, 0xFE0100, 255, 9⟩
    ∃ t e, (new data 2).map (·.withSettings ⟨255, 0, 100⟩) = .ok t ∧
      let s := operate (t, host) ops
      call ∈ s.1.calls .reference ∧ Entry.read data 1 = some e ∧ call.Carries .reference s.1.settings e ∧
        (s.1.play .reference s.2).1.track.wait = e.duration.toNat ∧
        (call.envelope >>> releaseShift).toNat = (s.1.play .reference s.2).1.track.wait * 255 ∧
        call.unpack.decay = 0xFE := by
  intro data host ops call
  have ht : (new data 2).map (·.withSettings ⟨255, 0, 100⟩) =
      .ok ⟨data, 2, ⟨255, 0, 100⟩, 0, 0, by decide, by decide⟩ := rfl
  obtain ⟨e, hread, -, hcarries, -, hwait, hrelease⟩ :=
    calls_carry_entry ht host ops .reference call (by decide)
  exact ⟨_, e, ht, by decide, hread, hcarries, hwait, hrelease, by decide⟩

end Track

end Chiptune
