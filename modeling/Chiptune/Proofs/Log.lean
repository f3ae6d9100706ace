import Mathlib.Data.List.Forall2
import Chiptune.Proofs.Config
import Chiptune.Proofs.Sequencer.Routes
import Chiptune.Proofs.Track.Heard
/-!
# The log of playback

A tick that decodes an entry may sound, and may come upon an end mark; over a tuning of more than 254 notes it may
do both. `Decoding.Logs` says what the log has of it: a record for the sound, then one for the mark. A log mirrors
decodings if it is put together from what it has of each, in order (`Mirrors`). One operation keeps to this, on a
track (`Track.mirrors_operation`) and on a sequencer (`Sequencer.mirrors_operation`), and so does a run. Of a
whole log the relation tells its records of sounds (`Mirrors.sounds`) and those of end marks (`Mirrors.marks`).

Main statement `log_mirrors_playback`.
-/
namespace Chiptune

/-- An entry that is decoded in a run. -/
structure Decoding where
  /-- Where the cursor was. -/
  index : Nat
  entry : Entry
  outcome : Outcome
  /-- A tone is requested from the host at hand. -/
  heard : Bool

namespace Decoding

def sounds (d : Decoding) : Bool := d.outcome.tone?.isSome

/-- The entry sends its track back to the start. -/
def marks (d : Decoding) : Bool := d.entry.note = Entry.endMark

/-- The call that the host receives. -/
def call? (d : Decoding) : Option HostCall := if d.heard then d.outcome.tone?.map Tone.pack else none

/-- The record has the most detail, and names the entry with its note, and the frequency and the instrument of the
tone. -/
structure Names (d : Decoding) (record : LogRecord) : Prop where
  level : record.level = .trace
  text : ∃ (tone : Tone) (i : Instrument), d.outcome = .played tone ∧
    tone.channel = i.channel.code.toUInt32 ∧ tone.mode = i.duty.code.toUInt32 ∧
    record.text = s!"entry {d.index}: note {d.entry.note} -> {tone.frequency} Hz on {i.label}"

/-- What the log has of an entry that is decoded. -/
inductive Logs (d : Decoding) : List LogRecord → Prop where
  | silent (hsilent : d.sounds = false) (hmark : d.marks = false) : Logs d []
  | sound {record : LogRecord} (h : d.Names record) (hmark : d.marks = false) : Logs d [record]
  | mark (hsilent : d.sounds = false) (hmark : d.marks = true) : Logs d [.restarted]
  /-- The sound comes before the mark. -/
  | soundingMark {record : LogRecord} (h : d.Names record) (hmark : d.marks = true) : Logs d [record, .restarted]

theorem Names.sounds {d : Decoding} {record : LogRecord} (h : d.Names record) : d.sounds = true := by
  obtain ⟨tone, i, houtcome, -⟩ := h.text
  rw [Decoding.sounds, houtcome]
  rfl

theorem call?_of_not_sounds {d : Decoding} (h : d.sounds = false) : d.call? = none := by
  have htone : d.outcome.tone? = none := by simpa [sounds] using h
  rw [call?, htone]
  exact ite_self _

theorem exists_call? {d : Decoding} (hheard : d.heard = true) (h : d.sounds = true) :
    ∃ call, d.call? = some call := by
  obtain ⟨tone, htone⟩ := Option.isSome_iff_exists.1 h
  exact ⟨tone.pack, by rw [call?, if_pos hheard, htone]; rfl⟩

end Decoding

/-! ## Logs of many decodings -/

/-- The log has these decodings in order, and nothing else. -/
inductive Mirrors : List Decoding → List LogRecord → Prop where
  | nil : Mirrors [] []
  | cons {d : Decoding} {records : List LogRecord} {ds : List Decoding} {log : List LogRecord}
      (h : d.Logs records) (hrest : Mirrors ds log) : Mirrors (d :: ds) (records ++ log)

theorem level_restarted : LogRecord.restarted.level = .debug := rfl

namespace Mirrors

variable {d : Decoding} {ds ds' : List Decoding} {records log log' : List LogRecord}

theorem single (h : d.Logs records) : Mirrors [d] records := by
  have hone := cons h nil
  rwa [List.append_nil] at hone

theorem append (h : Mirrors ds log) (h' : Mirrors ds' log') : Mirrors (ds ++ ds') (log ++ log') := by
  induction h with
  | nil => exact h'
  | cons hd _ ih =>
    rw [List.append_assoc]
    exact cons hd ih

/-- **The records in full detail are those of the sounds**, one for each and in their order. -/
theorem sounds (h : Mirrors ds log) :
    List.Forall₂ Decoding.Names (ds.filter (·.sounds)) (log.filter (·.level = .trace)) := by
  induction h with
  | nil => exact .nil
  | @cons d records ds log hd _ ih =>
    cases hd with
    | silent hsilent hmark => simpa [hsilent] using ih
    | sound hnames hmark => simpa [hnames.sounds, hnames.level] using ⟨hnames, ih⟩
    | mark hsilent hmark => simpa [hsilent, level_restarted] using ih
    | soundingMark hnames hmark => simpa [hnames.sounds, hnames.level, level_restarted] using ⟨hnames, ih⟩

/-- **The records of less detail are those of the end marks**, one for each. -/
theorem marks (h : Mirrors ds log) :
    log.filter (·.level = .debug) = List.replicate (ds.countP (·.marks)) .restarted := by
  induction h with
  | nil => rfl
  | @cons d records ds log hd _ ih =>
    rw [List.filter_append, ih, List.countP_cons]
    cases hd with
    | silent hsilent hmark => simp [hmark]
    | sound hnames hmark => simp [hmark, hnames.level]
    | mark hsilent hmark => simp [hmark, level_restarted, List.replicate_succ]
    | soundingMark hnames hmark => simp [hmark, hnames.level, level_restarted, List.replicate_succ]

/-- **Where every tone is requested, the records of the sounds are those of the calls**, one for each and in their
order. -/
theorem calls (h : Mirrors ds log) (hheard : ∀ d ∈ ds, d.heard = true) :
    List.Forall₂ (fun record call => ∃ d : Decoding, d.Names record ∧ d.call? = some call)
      (log.filter (·.level = .trace)) (ds.filterMap (·.call?)) := by
  induction h with
  | nil => exact .nil
  | @cons d records ds log hd _ ih =>
    obtain ⟨hheard, hrest⟩ := List.forall_mem_cons.1 hheard
    have ih := ih hrest
    cases hd with
    | silent hsilent hmark => simpa [Decoding.call?_of_not_sounds hsilent] using ih
    | mark hsilent hmark => simpa [Decoding.call?_of_not_sounds hsilent, level_restarted] using ih
    | sound hnames hmark =>
      obtain ⟨call, hcall⟩ := Decoding.exists_call? hheard hnames.sounds
      rw [List.filterMap_cons_some hcall]
      simpa [hnames.level] using ⟨⟨d, hnames, hcall⟩, ih⟩
    | soundingMark hnames hmark =>
      obtain ⟨call, hcall⟩ := Decoding.exists_call? hheard hnames.sounds
      rw [List.filterMap_cons_some hcall]
      simpa [hnames.level, level_restarted] using ⟨⟨d, hnames, hcall⟩, ih⟩

end Mirrors

/-! ## A track -/

theorem filterMap_toList {α β : Type} (f : α → Option β) (a : Option α) :
    a.toList.filterMap f = (a.bind f).toList := by
  cases a with
  | none => rfl
  | some a => cases h : f a <;> simp [h]

namespace Track

variable {σ : Type} [Host σ] {t : Track} {bank : Soundbank}

/-- **A decoding is in the log as it is to be.** -/
theorem logs_decode (t : Track) (bank : Soundbank) (heard : Bool) :
    Decoding.Logs ⟨t.next, t.entry, t.decode bank t.entry, heard⟩ (t.records bank t.entry) := by
  unfold decode records
  cases hnote : bank.tuning.get? t.entry.note.toNat with
  | none =>
    by_cases hend : t.entry.note = Entry.endMark
    · simp only [if_pos hend]
      exact .mark rfl (decide_eq_true hend)
    · simp only [if_neg hend]
      exact .silent rfl (decide_eq_false hend)
  | some hz =>
    have hnames (heard : Bool) : Decoding.Names ⟨t.next, t.entry, .played (t.tone bank t.entry hz), heard⟩
        (.played t.next t.entry.note hz (bank.instruments.resolve t.settings.instrument)) := by
      have hfrequency : toString (t.tone bank t.entry hz).frequency = toString hz := by
        show toString hz.toUInt32.toNat = toString hz.toNat
        rw [UInt16.toNat_toUInt32]
      refine ⟨rfl, _, _, rfl, rfl, rfl, ?_⟩
      rw [hfrequency]
      rfl
    by_cases hend : t.entry.note = Entry.endMark
    · simp only [if_pos hend]
      exact .soundingMark (hnames heard) (decide_eq_true hend)
    · simp only [if_neg hend]
      exact .sound (hnames heard) (decide_eq_false hend)

/-! ### Operations -/

def Operation.isHeard : Operation → Bool
  | .play _ => true
  | .tick _ | .reset | .setInstrument _ | .setVolume _ => false

/-- What an operation decodes; a tick that waits decodes nothing. -/
def Operation.decoding? (s : Track × σ) (op : Operation) : Option Decoding :=
  if s.1.wait = 0 then (op.step? s).map fun step => ⟨s.1.next, s.1.entry, step.outcome, op.isHeard⟩ else none

def Operation.log (s : Track × σ) (op : Operation) : List LogRecord := ((op.step? s).map (·.log)).getD []

/-- What some operations decode, the first one first. -/
def decodings (s : Track × σ) : List Operation → List Decoding
  | [] => []
  | op :: ops => (op.decoding? s).toList ++ decodings (op.apply s) ops

/-- The log of some operations. -/
def log (s : Track × σ) : List Operation → List LogRecord
  | [] => []
  | op :: ops => op.log s ++ log (op.apply s) ops

/-- An operation that steps a track ticks it. -/
theorem exists_tick_of_step? {s : Track × σ} {op : Operation} {step : Step} (h : op.step? s = some step) :
    ∃ bank, step = s.1.tick bank := by
  cases op with
  | tick bank => exact ⟨bank, (Option.some.inj h).symm⟩
  | play bank => exact ⟨bank, (Option.some.inj h).symm.trans (play_fst s.1 bank s.2)⟩
  | reset => cases h
  | setInstrument number => cases h
  | setVolume volume => cases h

/-- **The log of an operation is that of what it decodes.** -/
theorem mirrors_operation (s : Track × σ) (op : Operation) : Mirrors (op.decoding? s).toList (op.log s) := by
  unfold Operation.decoding? Operation.log
  cases hstep : op.step? s with
  | none =>
    rw [Option.map_none, ite_self]
    exact .nil
  | some step =>
    obtain ⟨bank, rfl⟩ := exists_tick_of_step? hstep
    by_cases hready : s.1.wait = 0
    · rw [if_pos hready, tick_of_ready hready]
      exact .single (s.1.logs_decode bank op.isHeard)
    · rw [if_neg hready, tick_of_waiting (Nat.pos_of_ne_zero hready)]
      exact .nil

/-- What an operation decodes in the hearing of a host calls it as the tick does. -/
theorem call?_play (s : Track × σ) (bank : Soundbank) :
    ((Operation.play bank).decoding? s).bind (·.call?) = (s.1.tick bank).outcome.tone?.map Tone.pack := by
  unfold Operation.decoding?
  by_cases hready : s.1.wait = 0
  · rw [if_pos hready, Operation.step?, play_fst]
    rfl
  · rw [if_neg hready, tick_of_waiting (Nat.pos_of_ne_zero hready)]
    rfl

theorem call?_of_not_isHeard {s : Track × σ} {op : Operation} (h : op.isHeard = false) :
    (op.decoding? s).bind (·.call?) = none := by
  refine Option.bind_eq_none_iff.2 fun d hd => ?_
  unfold Operation.decoding? at hd
  split at hd
  · obtain ⟨step, -, rfl⟩ := Option.map_eq_some_iff.1 hd
    simp only [Decoding.call?, h]
    rfl
  · cases hd

/-- The host receives the calls of what is decoded in its hearing. -/
theorem snd_apply (s : Track × σ) (op : Operation) :
    (op.apply s).2 = ((op.decoding? s).bind (·.call?)).toList.foldl Host.call s.2 := by
  cases op with
  | play bank =>
    rw [call?_play, Operation.apply, play_snd]
    cases (s.1.tick bank).outcome.tone? <;> rfl
  | tick bank => rw [call?_of_not_isHeard rfl]; rfl
  | reset => rw [call?_of_not_isHeard rfl]; rfl
  | setInstrument number => rw [call?_of_not_isHeard rfl]; rfl
  | setVolume volume => rw [call?_of_not_isHeard rfl]; rfl

theorem mirrors_log (s : Track × σ) (ops : List Operation) : Mirrors (decodings s ops) (log s ops) := by
  induction ops generalizing s with
  | nil => exact .nil
  | cons op ops ih => exact (mirrors_operation s op).append (ih (op.apply s))

theorem snd_operate (s : Track × σ) (ops : List Operation) :
    (operate s ops).2 = ((decodings s ops).filterMap (·.call?)).foldl Host.call s.2 := by
  induction ops generalizing s with
  | nil => rfl
  | cons op ops ih =>
    have hrest : (operate s (op :: ops)).2 = _ := ih (op.apply s)
    rw [hrest, snd_apply, decodings, List.filterMap_append, List.foldl_append, filterMap_toList]

end Track

/-! ## A sequencer -/

namespace Sequencer

variable {capacity : Nat} {σ : Type} [Host σ]

namespace Operation

/-- What an operation decodes, in the order of the tracks. -/
def decodings (s : Sequencer capacity × σ) : Operation → List Decoding
  | .tick => s.1.tracks.filterMap fun t => (Track.Operation.tick s.1.bank).decoding? (t, s.2)
  | .play => s.1.tracks.filterMap fun t => (Track.Operation.play s.1.bank).decoding? (t, s.2)
  | .aim index op => (s.1.tracks[index]?.bind fun t => op.decoding? (t, s.2)).toList
  | .add _ | .reset => []

def log (s : Sequencer capacity × σ) : Operation → List LogRecord
  | .tick => s.1.tick.log
  | .play => (s.1.play s.2).1.log
  | .aim index op => (s.1.tracks[index]?.map fun t => op.log (t, s.2)).getD []
  | .add _ | .reset => []

end Operation

/-- What some operations decode, the first one first. -/
def decodings (s : Sequencer capacity × σ) : List Operation → List Decoding
  | [] => []
  | op :: ops => op.decodings s ++ decodings (op.apply s) ops

/-- The log of some operations. -/
def log (s : Sequencer capacity × σ) : List Operation → List LogRecord
  | [] => []
  | op :: ops => op.log s ++ log (op.apply s) ops

/-- Tracks that are ticked in order make one log. -/
theorem mirrors_tracks (ts : List Track) (host : σ) (op : Track.Operation) :
    Mirrors (ts.filterMap fun t => op.decoding? (t, host)) (ts.flatMap fun t => op.log (t, host)) := by
  induction ts with
  | nil => exact .nil
  | cons t ts ih =>
    have hfirst : (t :: ts).filterMap (fun t => op.decoding? (t, host)) =
        (op.decoding? (t, host)).toList ++ ts.filterMap fun t => op.decoding? (t, host) := by
      rw [List.filterMap_cons]
      cases op.decoding? (t, host) <;> rfl
    rw [hfirst, List.flatMap_cons]
    exact (Track.mirrors_operation (t, host) op).append ih

theorem log_tick (s : Sequencer capacity) : s.tick.log = s.tracks.flatMap fun t => (t.tick s.bank).log := by
  show (s.tracks.map (·.tick s.bank)).flatMap (·.log) = _
  rw [List.flatMap_map]

/-- **The log of an operation is that of what it decodes**, track by track. -/
theorem mirrors_operation (s : Sequencer capacity × σ) (op : Operation) : Mirrors (op.decodings s) (op.log s) := by
  cases op with
  | tick =>
    have h := mirrors_tracks s.1.tracks s.2 (.tick s.1.bank)
    rwa [Operation.decodings, Operation.log, log_tick]
  | play =>
    have h := mirrors_tracks s.1.tracks s.2 (.play s.1.bank)
    simp only [Track.Operation.log, Track.Operation.step?, Track.play_fst] at h
    rwa [Operation.decodings, Operation.log, play, log_tick]
  | aim index op =>
    rw [Operation.decodings, Operation.log]
    cases s.1.tracks[index]? with
    | none => exact .nil
    | some t => exact Track.mirrors_operation (t, s.2) op
  | add t => exact .nil
  | reset => exact .nil

theorem mirrors_log (s : Sequencer capacity × σ) (ops : List Operation) : Mirrors (decodings s ops) (log s ops) := by
  induction ops generalizing s with
  | nil => exact .nil
  | cons op ops ih => exact (mirrors_operation s op).append (ih (op.apply s))

/-- The host receives the calls of what is decoded in its hearing, track by track. -/
theorem snd_apply (s : Sequencer capacity × σ) (op : Operation) :
    (op.apply s).2 = ((op.decodings s).filterMap (·.call?)).foldl Host.call s.2 := by
  cases op with
  | play =>
    have htones : s.1.tick.tones.map (fun x => x.2.pack) = _ := map_tonesFrom 0 s.1.steps
    rw [Operation.apply, play_snd, htones, Operation.decodings, List.filterMap_filterMap, steps, List.filterMap_map]
    simp only [Track.call?_play]
    rfl
  | aim index op =>
    rw [Operation.apply, Operation.decodings, filterMap_toList]
    cases s.1.tracks[index]? with
    | none => rfl
    | some t => exact Track.snd_apply (t, s.2) op
  | tick =>
    have hnone (t : Track) : ((Track.Operation.tick s.1.bank).decoding? (t, s.2)).bind (·.call?) = none :=
      Track.call?_of_not_isHeard rfl
    rw [Operation.decodings, List.filterMap_filterMap, funext hnone, List.filterMap_none]
    rfl
  | add t => rfl
  | reset => rfl

theorem snd_operate (s : Sequencer capacity × σ) (ops : List Operation) :
    (operate s ops).2 = ((decodings s ops).filterMap (·.call?)).foldl Host.call s.2 := by
  induction ops generalizing s with
  | nil => rfl
  | cons op ops ih => rw [operate_cons, ih, snd_apply, decodings, List.filterMap_append, List.foldl_append]

end Sequencer

/-! ## Offline playback -/

/-- The log of offline playback is that of its ticks. -/
theorem Playback.log_runFrom {capacity : Nat} {σ : Type} [Host σ] (host : σ) (first n : Nat)
    (p : Playback capacity) : (runFrom first n p).log.toList =
      p.log.toList ++ Sequencer.log (p.sequencer, host) (List.replicate n .tick) := by
  induction n generalizing first p with
  | zero => exact (List.append_nil _).symm
  | succ n ih =>
    have htick : (p.tick first).log.toList = p.log.toList ++ p.sequencer.tick.log := by simp [Playback.tick]
    rw [runFrom, ih, htick, List.append_assoc]
    rfl

/-- **The log mirrors playback.** In every run of a track and of a sequencer, over whatever sound banks and at
whatever host, the log is put together from what is decoded, in order. An entry that sounds has one record in full
detail, which names its position, its note, and the frequency and the instrument of the tone; an end mark has one
record, after that of its sound if it has one; there is nothing else. So the records in full detail are those of the
sounds, one for each and in their order, and where every tone is requested from the host they are those of the calls
that the host receives, whether it keeps them or not. The log of a trace is one of these. -/
theorem log_mirrors_playback {σ : Type} [Host σ] (host : σ) :
    (∀ (t : Track) (ops : List Track.Operation),
      let ds := Track.decodings (t, host) ops
      let log := Track.log (t, host) ops
      Mirrors ds log ∧
      List.Forall₂ Decoding.Names (ds.filter (·.sounds)) (log.filter (·.level = .trace)) ∧
      log.filter (·.level = .debug) = List.replicate (ds.countP (·.marks)) .restarted ∧
      (Track.operate (t, host) ops).2 = (ds.filterMap (·.call?)).foldl Host.call host ∧
      ((∀ d ∈ ds, d.heard = true) →
        List.Forall₂ (fun record call => ∃ d : Decoding, d.Names record ∧ d.call? = some call)
          (log.filter (·.level = .trace)) (ds.filterMap (·.call?)))) ∧
    (∀ (capacity : Nat) (s : Sequencer capacity) (ops : List Sequencer.Operation),
      let ds := Sequencer.decodings (s, host) ops
      let log := Sequencer.log (s, host) ops
      Mirrors ds log ∧
      List.Forall₂ Decoding.Names (ds.filter (·.sounds)) (log.filter (·.level = .trace)) ∧
      log.filter (·.level = .debug) = List.replicate (ds.countP (·.marks)) .restarted ∧
      (Sequencer.operate (s, host) ops).2 = (ds.filterMap (·.call?)).foldl Host.call host ∧
      ((∀ d ∈ ds, d.heard = true) →
        List.Forall₂ (fun record call => ∃ d : Decoding, d.Names record ∧ d.call? = some call)
          (log.filter (·.level = .trace)) (ds.filterMap (·.call?)))) ∧
    ∀ (p : Player) (n : Nat), (p.trace n).log = Sequencer.log (p.sequencer, host) (List.replicate n .tick) := by
  refine ⟨fun t ops => ?_, fun capacity s ops => ?_, fun p n => Playback.log_runFrom host 0 n _⟩
  · have h := Track.mirrors_log (t, host) ops
    exact ⟨h, h.sounds, h.marks, Track.snd_operate (t, host) ops, h.calls⟩
  · have h := Sequencer.mirrors_log (s, host) ops
    exact ⟨h, h.sounds, h.marks, Sequencer.snd_operate (s, host) ops, h.calls⟩

/-- Over 255 notes an end mark sounds before it sends its track back. Both tracks of a sequencer come to one, the
second of them in a tick in which the first waits; the recorder has room for one call only. -/
theorem log_mirrors_playback_sounding_mark :
    let bank : Soundbank := ⟨⟨440, List.replicate 254 440, firstDescent_replicate 440 1 254⟩, .reference⟩
    let lead : Track := ⟨#[33, 1, 0, 0xFE, 1, 0], 2, {}, 0, 0, by decide, by decide⟩
    let bass : Track := ⟨#[0xFF, 0, 0, 0xFE, 0, 0], 2, { instrument := 3 }, 0, 0, by decide, by decide⟩
    let s : Sequencer 2 := ⟨bank, [lead, bass], 0, by decide⟩
    let host : Recorder 1 := .new
    let ops : List Sequencer.Operation := [.play, .aim 0 (.setInstrument 1), .play, .play]
    let ds := Sequencer.decodings (s, host) ops
    let log := Sequencer.log (s, host) ops
    log.map (·.text) = ["entry 0: note 33 -> 440 Hz on triangle", "entry 1: note 254 -> 440 Hz on pulse1 25%",
        "end marker, restarting track", "entry 1: note 254 -> 440 Hz on pulse1 50%", "end marker, restarting track"] ∧
      log.map (·.level) = [.trace, .trace, .debug, .trace, .debug] ∧ (∀ d ∈ ds, d.heard = true) ∧
      Mirrors ds log ∧ (Sequencer.operate (s, host) ops).2 = (ds.filterMap (·.call?)).foldl Host.call host ∧
      List.Forall₂ (fun record call => ∃ d : Decoding, d.Names record ∧ d.call? = some call)
        (log.filter (·.level = .trace)) (ds.filterMap (·.call?)) := by
  intro bank lead bass s host ops ds log
  have hheard : ∀ d ∈ ds, d.heard = true := by decide
  obtain ⟨-, hsequencer, -⟩ := log_mirrors_playback host
  obtain ⟨hmirrors, -, -, hhost, hcalls⟩ := hsequencer 2 s ops
  exact ⟨by decide, by decide, hheard, hmirrors, hhost, hcalls hheard⟩

end Chiptune
