import Chiptune.Listing
import Chiptune.Proofs.Config
import Chiptune.Proofs.Track.Run
/-!
# Listings against playback

A listing looks for the reserved note numbers first and for the note after that; decoding looks for the note
first. The two part where a tuning has a reserved number: there the entry sounds, and its row says that it
does not (`agrees_iff`).

Main statement `listing_agrees_iff`: a listing tells what playback does exactly if the tuning has no more
than 254 notes. Configurations may give two more.
-/
namespace Chiptune

/-- The note number of the entry is that of an end mark or of an unused entry. -/
def Entry.Reserved (e : Entry) : Prop := e.note = endMark ∨ e.note = emptyMark

namespace Tuning

variable {tuning : Tuning} {note : UInt8}

theorem has_iff : tuning.has note = true ↔ ∃ hz, tuning.get? note.toNat = some hz := by
  have hlt : tuning.has note = true ↔ note.toNat < tuning.frequencies.length := decide_eq_true_iff
  rw [hlt]
  constructor
  · intro h
    exact ⟨_, List.getElem?_eq_getElem h⟩
  · rintro ⟨hz, hget⟩
    exact (List.getElem?_eq_some_iff.1 hget).1

/-- Beyond 254 notes a tuning has reserved numbers. -/
theorem size_le_iff : tuning.size ≤ 254 ↔ ∀ e : Entry, e.Reserved → tuning.has e.note = false := by
  constructor
  · intro h e he
    simp only [has, decide_eq_false_iff_not]
    rcases he with he | he
    · rw [he]
      show ¬ 254 < tuning.size
      omega
    · rw [he]
      show ¬ 255 < tuning.size
      omega
  · intro h
    have hend : ¬ 254 < tuning.size := of_decide_eq_false (h .restart (.inl rfl))
    omega

end Tuning

/-! ## One row -/

namespace ListingRow

/-- A row tells what decoding its entry does: it is a note exactly if a tone is played, of the frequency it
shows, an end mark exactly if the track loops in silence, and silent otherwise exactly if it rests. -/
structure Agrees (row : ListingRow) (outcome : Outcome) : Prop where
  audible : row.role.isAudible = true ↔ ∃ tone, outcome = .played tone
  frequency : row.frequency.map (·.toUInt32) = outcome.tone?.map (·.frequency)
  endMark : row.role = .endMark ↔ outcome = .looped
  silent : row.role = .rest ∨ row.role = .empty ↔ outcome = .rest

variable {t : Track} {bank : Soundbank} {index : Nat} {e : Entry}

/-- A reserved number is looked for before the tuning is. -/
theorem not_audible_of_reserved (h : e.Reserved) (tuning : Tuning) :
    (ofEntry tuning index e).role.isAudible = false := by
  simp only [ofEntry, Entry.role]
  rcases h with h | h
  · rw [if_pos h]
    rfl
  · rw [if_neg (by rw [h]; decide), if_pos h]
    rfl

/-- Whatever the tuning has sounds. -/
theorem played_of_has (h : bank.tuning.has e.note = true) : ∃ tone, t.decode bank e = .played tone := by
  obtain ⟨hz, hget⟩ := Tuning.has_iff.1 h
  exact ⟨t.tone bank e hz, by simp only [Track.decode, hget]⟩

theorem agrees_of_not_has (h : bank.tuning.has e.note = false) :
    (ofEntry bank.tuning index e).Agrees (t.decode bank e) := by
  have hget : bank.tuning.get? e.note.toNat = none := by
    cases hget : bank.tuning.get? e.note.toNat with
    | none => rfl
    | some hz => simp [Tuning.has_iff.2 ⟨hz, hget⟩] at h
  by_cases hend : e.note = Entry.endMark
  · have hrole : e.role bank.tuning = .endMark := if_pos hend
    have hdecode : t.decode bank e = .looped := by simp only [Track.decode, hget, if_pos hend]
    constructor <;> simp [ofEntry, hrole, hdecode, Role.isAudible, Outcome.tone?]
  · have hdecode : t.decode bank e = .rest := by simp only [Track.decode, hget, if_neg hend]
    by_cases hempty : e.note = Entry.emptyMark
    · have hrole : e.role bank.tuning = .empty := by rw [Entry.role, if_neg hend, if_pos hempty]
      constructor <;> simp [ofEntry, hrole, hdecode, Role.isAudible, Outcome.tone?]
    · have hrole : e.role bank.tuning = .rest := by simp [Entry.role, hend, hempty, h]
      constructor <;> simp [ofEntry, hrole, hdecode, Role.isAudible, Outcome.tone?]

theorem agrees_of_not_reserved (h : ¬ e.Reserved) (hhas : bank.tuning.has e.note = true) :
    (ofEntry bank.tuning index e).Agrees (t.decode bank e) := by
  obtain ⟨hend, hempty⟩ := not_or.1 h
  obtain ⟨hz, hget⟩ := Tuning.has_iff.1 hhas
  have hrole : e.role bank.tuning = .note e.note := by simp [Entry.role, hend, hempty, hhas]
  have hdecode : t.decode bank e = .played (t.tone bank e hz) := by simp only [Track.decode, hget]
  constructor <;> simp [ofEntry, hrole, hget, hdecode, Role.isAudible, Outcome.tone?, Track.tone]

/-- **A row agrees with decoding** unless the tuning has a reserved number. -/
theorem agrees_iff :
    (ofEntry bank.tuning index e).Agrees (t.decode bank e) ↔
      ¬ (e.Reserved ∧ bank.tuning.has e.note = true) := by
  constructor
  · rintro h ⟨hreserved, hhas⟩
    have haudible := h.audible.2 (played_of_has hhas)
    rw [not_audible_of_reserved hreserved] at haudible
    cases haudible
  · intro h
    by_cases hhas : bank.tuning.has e.note = true
    · exact agrees_of_not_reserved (fun hreserved => h ⟨hreserved, hhas⟩) hhas
    · exact agrees_of_not_has (Bool.eq_false_iff.2 hhas)

end ListingRow

/-! ## A whole listing -/

namespace Part

theorem getElem?_listing (p : Part) (tuning : Tuning) (i : Nat) :
    (p.listing tuning)[i]? = (Entry.all p.data).toList[i]?.map (ListingRow.ofEntry tuning i) := by
  simp only [listing, List.getElem?_map, List.getElem?_zipIdx, Option.map_map, Nat.zero_add]
  rfl

/-- The row at the cursor of a track over the part shows the entry there. -/
theorem getElem?_listing_next {p : Part} {t : Track} (hdata : t.data = p.data) (tuning : Tuning) :
    (p.listing tuning)[t.next]? = some (.ofEntry tuning t.next t.entry) := by
  rw [getElem?_listing, ← hdata, Entry.getElem?_all, dif_pos t.start_le]
  rfl

end Part

/-- **A listing tells what playback does exactly if the tuning has no reserved number.** Each entry that a
part decodes has its row, which agrees unless the tuning has the entry's reserved number; then the entry
sounds and the row is none of a note. An accepted tuning has up to 256 notes, and up to 254 all rows
agree. -/
theorem listing_agrees_iff {c : Config} {bank : Soundbank} (hc : c.soundbank = .ok bank) :
    (∀ (p : Part) (n : Nat), let t := p.track.after bank n
      t.wait = 0 → ∃ row, (p.listing bank.tuning)[t.next]? = some row ∧ row.entry = t.entry ∧
        (row.Agrees (t.tick bank).outcome ↔ ¬ (t.entry.Reserved ∧ bank.tuning.has t.entry.note = true)) ∧
        (t.entry.Reserved → bank.tuning.has t.entry.note = true →
          row.role.isAudible = false ∧ ∃ tone, (t.tick bank).outcome = .played tone)) ∧
      bank.tuning.size ≤ 256 ∧
      ((∀ (p : Part) (n : Nat) (row : ListingRow), let t := p.track.after bank n
        t.wait = 0 → (p.listing bank.tuning)[t.next]? = some row → row.Agrees (t.tick bank).outcome) ↔
          bank.tuning.size ≤ 254) := by
  have hrow (p : Part) (n : Nat) := Part.getElem?_listing_next (p.track.after_sameSong bank n).data bank.tuning
  refine ⟨fun p n => ?_, Config.tuning_size_le hc, ?_, fun hsize p n row => ?_⟩
  · intro t hwait
    rw [Track.tick_of_ready hwait]
    exact ⟨_, hrow p n, rfl, ListingRow.agrees_iff, fun hreserved hhas =>
      ⟨ListingRow.not_audible_of_reserved hreserved _, ListingRow.played_of_has hhas⟩⟩
  · -- A part of one end mark shows that more notes are too many.
    intro h
    by_contra hsize
    have hhas : bank.tuning.has Entry.restart.note = true := decide_eq_true (by show 254 < _; omega)
    have hagrees := h ⟨{}, #[0xFE, 0, 0], by decide, by decide⟩ 0 _ rfl (hrow _ 0)
    exact ListingRow.agrees_iff.1 hagrees ⟨.inl rfl, hhas⟩
  · intro t hwait hget
    rw [hrow p n] at hget
    obtain rfl := Option.some.inj hget
    rw [Track.tick_of_ready hwait]
    refine ListingRow.agrees_iff.2 ?_
    rintro ⟨hreserved, hhas⟩
    rw [Tuning.size_le_iff.1 hsize _ hreserved] at hhas
    cases hhas

/-- Every listing over the reference tells what playback does. -/
theorem listing_agrees_iff_reference :
    Config.soundbank {} = .ok .reference ∧ ∀ (p : Part) (n : Nat) (row : ListingRow),
      let t := p.track.after .reference n
      t.wait = 0 → (p.listing .reference)[t.next]? = some row → row.Agrees (t.tick .reference).outcome := by
  have hc : Config.soundbank {} = .ok .reference := rfl
  exact ⟨hc, (listing_agrees_iff hc).2.2.2 (by decide)⟩

/-- With 256 notes an end mark is played, and its row is that of an end mark. -/
theorem listing_disagrees_full_tuning :
    let c : Config := { notes := { frequencies := some (List.replicate 256 440) } }
    let p : Part := ⟨{}, #[0xFE, 0, 0], by decide, by decide⟩
    ∃ bank row, c.soundbank = .ok bank ∧ p.track.wait = 0 ∧
      (p.listing bank.tuning)[p.track.next]? = some row ∧ row.role = .endMark ∧
      (∃ tone, (p.track.tick bank).outcome = .played tone) ∧ ¬ row.Agrees (p.track.tick bank).outcome := by
  intro c p
  let bank : Soundbank := ⟨⟨440, List.replicate 255 440, firstDescent_replicate 440 1 255⟩, .reference⟩
  have hvalid : c.validate = .ok () := by
    rw [Config.validate_eq_ok]
    exact ⟨by decide, Nat.le_of_eq List.length_replicate⟩
  have hsize : bank.tuning.size = 256 := congrArg (· + 1) List.length_replicate
  have hhas : bank.tuning.has Entry.restart.note = true := decide_eq_true (by rw [hsize]; decide)
  have hplayed : ∃ tone, (p.track.tick bank).outcome = .played tone := ListingRow.played_of_has hhas
  refine ⟨bank, .ofEntry bank.tuning 0 .restart, Config.soundbank_eq_ok.2 ⟨hvalid, rfl, rfl⟩, rfl, rfl, rfl,
    hplayed, fun h => ?_⟩
  have haudible := h.audible.2 hplayed
  cases haudible

end Chiptune
