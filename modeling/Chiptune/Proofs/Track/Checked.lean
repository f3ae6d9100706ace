import Chiptune.Proofs.Part
/-!
# Checked playback

The machine under a track: a `Cursor` has the fields of a track and none of its guarantees, and its steps
check every difference, sum, product, remainder and position that they work out, giving nothing where a
check fails.

A track simulates its cursor. `tick?_cursor` is one tick and `operate?_cursor` a run of any operations: no
check ever fails, and the cursor ends where the track does. Main statement `playback_never_fails`.
-/
namespace Chiptune

/-- The fields of a track without what it guarantees. -/
structure Cursor where
  data : Array UInt8
  count : Nat
  settings : Settings
  next : Nat
  wait : Nat

/-- A track as a bare cursor. -/
def Track.cursor (t : Track) : Cursor := ⟨t.data, t.count, t.settings, t.next, t.wait⟩

namespace Cursor

/-! ## Checked arithmetic -/

/-- A difference, if it is not negative. -/
def sub? (a b : Nat) : Option Nat := if b ≤ a then some (a - b) else none

/-- A remainder, if there is something to divide by. -/
def rem? (a b : Nat) : Option Nat := if 0 < b then some (a % b) else none

/-- A product, if it fits in 32 bits. -/
def mul32? (a b : UInt32) : Option UInt32 := if a.toNat * b.toNat < UInt32.size then some (a * b) else none

theorem sub?_of_le {a b : Nat} (h : b ≤ a) : sub? a b = some (a - b) := if_pos h

theorem rem?_of_pos {a b : Nat} (h : 0 < b) : rem? a b = some (a % b) := if_pos h

/-- Two bytes never overflow 32 bits. -/
theorem mul32?_bytes (a b : UInt8) : mul32? a.toUInt32 b.toUInt32 = some (a.toUInt32 * b.toUInt32) := by
  have hlt : a.toUInt32.toNat * b.toUInt32.toNat < UInt32.size := by
    rw [UInt8.toNat_toUInt32, UInt8.toNat_toUInt32]
    exact Nat.lt_of_le_of_lt (mul_bytes_le a b) (by decide)
  exact if_pos hlt

/-! ## Checked steps -/

def instrument? (instruments : List Instrument) (number : UInt8) : Option Instrument := do
  let index ← rem? number.toNat instruments.length
  instruments[index]?

def tone? (c : Cursor) (bank : Soundbank) (e : Entry) (hz : UInt16) : Option Tone := do
  let instrument ← instrument? bank.instruments.instruments c.settings.instrument
  let release ← mul32? e.duration.toUInt32 c.settings.ticks.toUInt32
  return {
    frequency := hz.toUInt32
    sustain := 0
    release
    volume := c.settings.volume.toUInt32
    channel := instrument.channel.code.toUInt32
    mode := instrument.duty.code.toUInt32 }

def outcome? (c : Cursor) (bank : Soundbank) (e : Entry) : Option Outcome :=
  match bank.tuning.get? e.note.toNat with
  | some hz => (c.tone? bank e hz).map .played
  | none => some (if e.note = Entry.endMark then .looped else .rest)

/-- The entry at the cursor is read and decoded, and the cursor goes on. -/
def decode? (c : Cursor) (bank : Soundbank) : Option (Outcome × Cursor) := do
  let e ← Entry.read c.data c.next
  let outcome ← c.outcome? bank e
  let following ← word64? (c.next + 1)
  let next ← rem? following c.count
  return (outcome,
    { c with next := if e.note = Entry.endMark then 0 else next, wait := e.duration.toNat })

def tick? (c : Cursor) (bank : Soundbank) : Option (Outcome × Cursor) :=
  if 0 < c.wait then do
    let left ← sub? c.wait 1
    return (.waited left, { c with wait := left })
  else c.decode? bank

variable {σ : Type} [Host σ]

/-- The cursor and the host after an operation. -/
def perform? (s : Cursor × σ) : Track.Operation → Option (Cursor × σ)
  | .tick bank => do
    let (_, c) ← s.1.tick? bank
    return (c, s.2)
  | .play bank => do
    let (outcome, c) ← s.1.tick? bank
    return (c, match outcome.tone? with
      | some tone => tone.request s.2
      | none => s.2)
  | .reset => some ({ s.1 with next := 0, wait := 0 }, s.2)
  | .setInstrument number => some ({ s.1 with settings := { s.1.settings with instrument := number } }, s.2)
  | .setVolume volume => some ({ s.1 with settings := { s.1.settings with volume } }, s.2)

/-- The cursor and the host after some operations, if no check fails on the way. -/
def operate? (s : Cursor × σ) : List Track.Operation → Option (Cursor × σ)
  | [] => some s
  | op :: ops => do operate? (← perform? s op) ops

end Cursor

/-! ## No check fails -/

namespace Track

open Cursor

variable {t : Track}

theorem outcome?_cursor (t : Track) (bank : Soundbank) (e : Entry) :
    t.cursor.outcome? bank e = some (t.decode bank e) := by
  have hinstrument : instrument? bank.instruments.instruments t.settings.instrument =
      some (bank.instruments.resolve t.settings.instrument) := by
    simp only [instrument?, rem?_of_pos bank.instruments.nonempty, Option.bind_eq_bind, Option.bind_some]
    exact bank.instruments.getElem?_resolve _
  unfold outcome? decode
  cases hnote : bank.tuning.get? e.note.toNat with
  | none => rfl
  | some hz =>
    simp only [tone?, cursor, hinstrument, mul32?_bytes, Option.bind_eq_bind, Option.bind_some]
    rfl

/-- The cursor of a track with addresses goes on without a fault, to where the track goes. -/
theorem tick?_cursor (haddr : t.count * Entry.size < word64Limit) (bank : Soundbank) :
    t.cursor.tick? bank = some ((t.tick bank).outcome, (t.tick bank).track.cursor) := by
  by_cases hw : 0 < t.wait
  · rw [tick_of_waiting hw]
    simp only [tick?, cursor, hw, if_true, sub?_of_le (Nat.succ_le_of_lt hw), Option.bind_eq_bind,
      Option.bind_some]
    rfl
  · -- All positions worked out lie below the end of the song, which has an address.
    have hend : t.next * Entry.size + Entry.size ≤ t.count * Entry.size := by
      have := t.next_lt
      simp only [Entry.size]
      omega
    have hread : Entry.read t.data t.next = some t.entry :=
      Entry.read_eq_some t.start_le (Nat.lt_of_le_of_lt hend haddr)
    have hnext : word64? (t.next + 1) = some (t.next + 1) := by
      refine if_pos (Nat.lt_of_le_of_lt ?_ haddr)
      have := t.next_lt
      simp only [Entry.size]
      omega
    have hcount : 0 < t.count := Nat.zero_lt_of_lt t.next_lt
    have houtcome := t.outcome?_cursor bank t.entry
    rw [tick_of_ready (by omega)]
    simp only [cursor] at houtcome
    simp only [tick?, cursor, hw, if_false, decode?, hread, houtcome, hnext, rem?_of_pos hcount,
      Option.bind_eq_bind, Option.bind_some]
    rfl

variable {σ : Type} [Host σ]

theorem perform?_cursor {s : Track × σ} (haddr : s.1.count * Entry.size < word64Limit) (op : Operation) :
    perform? (s.1.cursor, s.2) op = some ((op.apply s).1.cursor, (op.apply s).2) := by
  cases op with
  | tick bank => simp [perform?, Operation.apply, tick?_cursor haddr]
  | play bank =>
    simp only [perform?, Operation.apply, tick?_cursor haddr, play_fst, play_snd, Option.bind_eq_bind,
      Option.bind_some]
    rfl
  | reset => rfl
  | setInstrument number => rfl
  | setVolume volume => rfl

/-- **No operation fails**, whatever came before it. -/
theorem operate?_cursor {s : Track × σ} (haddr : s.1.count * Entry.size < word64Limit)
    (ops : List Operation) :
    operate? (s.1.cursor, s.2) ops = some ((operate s ops).1.cursor, (operate s ops).2) := by
  induction ops generalizing s with
  | nil => rfl
  | cons op ops ih =>
    have hcount := (apply_sameEntries s op).count
    simp only [operate?, perform?_cursor haddr, Option.bind_eq_bind, Option.bind_some]
    exact ih (hcount ▸ haddr)

/-! ## The range of a cursor -/

/-- A track later in its playback: the cursor is on an entry of the song and past none of its end marks,
the wait is a byte, and entries and release ticks are what they were. -/
structure InRange (t u : Track) : Prop where
  next_lt : u.next < t.count
  next_le : ∀ i < t.count, ∀ e, Entry.read t.data i = some e → e.note = Entry.endMark → u.next ≤ i
  wait_le : u.wait ≤ 255
  entries : u.SameEntries t

theorem OnLoop.inRange {u : Track} (h : u.OnLoop) (hentries : u.SameEntries t)
    (haddr : t.count * Entry.size < word64Limit) : t.InRange u where
  next_lt := hentries.count ▸ u.next_lt
  next_le i hi e he hend := by
    rw [← t.getElem?_score hi haddr, ← hentries.score] at he
    have hloop := Score.loopSize_le_of_endMark he hend
    have := h.next_lt
    omega
  wait_le := h.wait_le
  entries := hentries

/-- No track is made exactly where one of the three checks fails. -/
theorem exists_new_eq_error_iff {data : Array UInt8} {count : Nat} :
    (∃ fault, new data count = .error fault) ↔
      count = 0 ∨ word64Limit ≤ count * Entry.size ∨ data.size < count * Entry.size := by
  have hok := @exists_new_eq_ok_iff data count
  cases hnew : new data count with
  | error fault =>
    simp only [hnew, reduceCtorEq, exists_false, false_iff] at hok
    refine ⟨fun _ => ?_, fun _ => ⟨fault, rfl⟩⟩
    omega
  | ok t =>
    simp only [hnew, Except.ok.injEq, exists_eq', true_iff] at hok
    simp only [reduceCtorEq, exists_false, false_iff]
    omega

/-- **Playback never fails.** A track is refused exactly where there is no entry, an entry without an
address or an entry outside the data; the track over a loaded part is one that is made. From then on no
operation fails in any order, over any sound banks and at any host, and the cursor stays in range. -/
theorem playback_never_fails :
    (∀ data count, (∃ fault, new data count = .error fault) ↔
      count = 0 ∨ word64Limit ≤ count * Entry.size ∨ data.size < count * Entry.size) ∧
    (∀ settings data p, Part.Loaded settings data p → data.size < word64Limit →
      (new p.data p.count).map (·.withSettings p.settings) = .ok p.track) ∧
    ∀ data count settings t, (new data count).map (·.withSettings settings) = .ok t →
      t.data = data ∧ t.count = count ∧ t.settings = settings ∧
      ∀ (σ : Type) [Host σ] (host : σ) (ops : List Operation),
        let s := operate (t, host) ops
        operate? (t.cursor, host) ops = some (s.1.cursor, s.2) ∧ t.InRange s.1 := by
  refine ⟨fun data count => exists_new_eq_error_iff, fun settings data p hp hdata => ?_,
    fun data count settings t ht => ?_⟩
  · exact Part.map_new_eq_track (Nat.lt_of_le_of_lt hp.size_le hdata)
  · have hnew := isNew_of_new ht
    have haddr : t.count * Entry.size < word64Limit := hnew.count_eq ▸ hnew.addressed
    refine ⟨hnew.data_eq, hnew.count_eq, hnew.settings_eq, fun σ _ host ops => ⟨?_, ?_⟩⟩
    · exact @operate?_cursor σ _ (t, host) haddr ops
    · have hloop : t.OnLoop := onLoop_of_start hnew.next_eq hnew.wait_eq
      exact (OnLoop.operate (s := (t, host)) hloop ops).inRange (operate_sameEntries (t, host) ops) haddr

/-- Two notes and an end mark, ticked over two sound banks and started again halfway; two tones are heard.
No track is made of no entries, and a bare note is a part. -/
theorem playback_never_fails_two_notes :
    let data : Array UInt8 := #[33, 0, 0, 70, 0, 0, 0xFE, 1, 0]
    let low : Soundbank := ⟨⟨65, [], rfl⟩, .reference⟩
    let host : Recorder 4 := ⟨[], 0, Nat.zero_le 4⟩
    let ops : List Operation := [.play .reference, .setVolume 3, .play low, .tick .reference, .reset,
      .setInstrument 7, .play .reference]
    (∃ fault, new data 0 = .error fault) ∧
      (∃ p, Part.Loaded {} #[33, 0, 0] p ∧
        (new p.data p.count).map (·.withSettings p.settings) = .ok p.track) ∧
      ∃ t, (new data 3).map (·.withSettings ⟨2, 15, 42⟩) = .ok t ∧
        let s := operate (t, host) ops
        operate? (t.cursor, host) ops = some (s.1.cursor, s.2) ∧ t.InRange s.1 ∧ s.1.next = 1 ∧ s.2.size = 2 := by
  intro data low host ops
  obtain ⟨hnew, hpart, hrun⟩ := playback_never_fails
  have hloaded : Part.Loaded {} #[33, 0, 0] ⟨{}, #[33, 0, 0], by decide, by decide⟩ := .made rfl
  have ht : (new data 3).map (·.withSettings ⟨2, 15, 42⟩) =
      .ok ⟨data, 3, ⟨2, 15, 42⟩, 0, 0, by decide, by decide⟩ := rfl
  refine ⟨(hnew data 0).2 (.inl rfl), ⟨_, hloaded, hpart _ _ _ hloaded (by decide)⟩, _, ht, ?_⟩
  obtain ⟨hchecked, hrange⟩ := (hrun _ _ _ _ ht).2.2.2 (Recorder 4) host ops
  exact ⟨hchecked, hrange, rfl, rfl⟩

end Track

end Chiptune
