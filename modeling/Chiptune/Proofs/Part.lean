import Mathlib.Tactic.Common
import Chiptune.Proofs.Part.Container
import Chiptune.Proofs.Track.Run
/-!
# Loaded parts

`Loaded` is a part that some way of loading makes of some data; loading has checked what a new track checks,
so the track over a part is one that `Track.new` makes (`map_new_eq_track`).

Containers and bare entries may begin alike, but not be alike as a whole: the header of a container is one
byte longer than three entries (`size_mod_of_container`). Main statement `load_never_misreads`.
-/
namespace Chiptune.Part

variable {settings : Settings} {data : Array UInt8} {p : Part}

/-- A part made of the data: directly, from a container, from bare entries, or by whichever of these two
the data looks like. -/
inductive Loaded (settings : Settings) (data : Array UInt8) (p : Part) : Prop where
  | made (h : ofData settings data = .ok p)
  | container (h : (loadContainer data).value = .ok p)
  | bare (h : (loadBare settings data).value = .ok p)
  | either (h : (load settings data).value = .ok p)

theorem ofData_of_loadBare (h : (loadBare settings data).value = .ok p) : ofData settings data = .ok p := by
  unfold loadBare at h
  split at h
  · rename_i q hq
    cases h
    exact hq
  · cases h

/-- However a part is loaded, its entries are the data or the end of it. -/
theorem Loaded.size_le (h : Loaded settings data p) : p.data.size ≤ data.size := by
  have hcontainer (hc : (loadContainer data).value = .ok p) : p.data.size ≤ data.size := by
    cases loadContainer_eq_iff.1 hc with
    | part h hn hsize hdata =>
      rw [hdata, Array.size_extract]
      omega
  have hmade (hm : ofData settings data = .ok p) : p.data.size ≤ data.size :=
    Nat.le_of_eq (congrArg Array.size (ofData_eq_ok.1 hm).2)
  cases h with
  | made h => exact hmade h
  | container h => exact hcontainer h
  | bare h => exact hmade (ofData_of_loadBare h)
  | either h =>
    unfold load at h
    split at h
    · exact hcontainer h
    · exact hmade (ofData_of_loadBare h)

/-- **A part has passed the checks of a new track**, as long as its length is a number of 64 bits. -/
theorem map_new_eq_track (h : p.data.size < word64Limit) :
    (Track.new p.data p.count).map (·.withSettings p.settings) = .ok p.track := by
  have hsize := p.count_mul_size
  rw [Track.new_eq_ok p.count_pos (hsize ▸ h) (Nat.le_of_eq hsize)]
  rfl

/-! ## Containers and bare entries -/

theorem loadBare_eq_ok : (loadBare settings data).value = .ok p ↔ p.settings = settings ∧ p.data = data := by
  refine ⟨fun h => ofData_eq_ok.1 (ofData_of_loadBare h), fun h => ?_⟩
  rw [loadBare, ofData_eq_ok.2 h]

theorem load_of_magic (h : [0x42, 0x54, 0x52, 0x4B] <+: data.toList) (settings : Settings) :
    load settings data = loadContainer data := if_pos (hasMagic_iff.2 h)

theorem load_of_not_magic (h : ¬ [0x42, 0x54, 0x52, 0x4B] <+: data.toList) (settings : Settings) :
    load settings data = loadBare settings data := if_neg fun hmagic => h (hasMagic_iff.1 hmagic)

theorem magic_of_container (h : (loadContainer data).value = .ok p) :
    [0x42, 0x54, 0x52, 0x4B] <+: data.toList := by
  cases loadContainer_eq_iff.1 h with
  | part h hn hsize hdata => exact h.magic

theorem size_mod_of_container (h : (loadContainer data).value = .ok p) : data.size % Entry.size = 1 := by
  cases loadContainer_eq_iff.1 h with
  | part h hn hsize hdata =>
    rw [hsize, Entry.size]
    omega

/-- Whole entries that begin as a container does are refused as one. -/
theorem loadContainer_of_whole (h : data.size % Entry.size = 0) :
    ∃ fault, (loadContainer data).value = .error fault := by
  cases hvalue : (loadContainer data).value with
  | error fault => exact ⟨fault, rfl⟩
  | ok p =>
    have := size_mod_of_container hvalue
    omega

/-- **Loading never takes one form for the other.** No data is both a container and bare entries. What is
written for a part is loaded as that part, whatever settings are given for bare entries. The bare entries of
a part are loaded as that part unless they begin as a container does; then they are refused, with what is
wrong with them as a container. So where bare entries could be loaded, either that comes of it or a fault. -/
theorem load_never_misreads :
    (∀ data settings p q, (loadContainer data).value = .ok p → (loadBare settings data).value ≠ .ok q) ∧
    (∀ p settings, p.count ≤ 65535 → ∃ data, p.encode = .ok data ∧ (load settings data).value = .ok p) ∧
    (∀ p : Part, ¬ [0x42, 0x54, 0x52, 0x4B] <+: p.data.toList → (load p.settings p.data).value = .ok p) ∧
    (∀ (p : Part) settings, [0x42, 0x54, 0x52, 0x4B] <+: p.data.toList →
      ∃ fault, (load settings p.data).value = .error fault ∧ Verdict p.data (.error fault)) ∧
    ∀ data settings p, (loadBare settings data).value = .ok p →
      (load settings data).value = .ok p ∨ ∃ fault, (load settings data).value = .error fault := by
  refine ⟨?_, ?_, ?_, ?_, ?_⟩
  · intro data settings p q hp hq
    obtain ⟨-, rfl⟩ := loadBare_eq_ok.1 hq
    have hone := size_mod_of_container hp
    have hzero := q.whole
    omega
  · intro p settings hcount
    have hencode := encode_of_le hcount
    have hload := loadContainer_eq_iff.2 (verdict_of_encode hencode)
    refine ⟨_, hencode, ?_⟩
    rw [load_of_magic (magic_of_container hload), hload]
  · intro p hmagic
    rw [load_of_not_magic hmagic, loadBare_eq_ok]
    exact ⟨rfl, rfl⟩
  · intro p settings hmagic
    obtain ⟨fault, hfault⟩ := loadContainer_of_whole p.whole
    refine ⟨fault, ?_, loadContainer_eq_iff.1 hfault⟩
    rw [load_of_magic hmagic, hfault]
  · intro data settings p hp
    by_cases hmagic : [0x42, 0x54, 0x52, 0x4B] <+: data.toList
    · obtain ⟨-, rfl⟩ := loadBare_eq_ok.1 hp
      rw [load_of_magic hmagic]
      exact .inr (loadContainer_of_whole p.whole)
    · rw [load_of_not_magic hmagic]
      exact .inl hp

/-- Two bare entries that are taken for a container cut short, the container that is written for them, and an
entry that begins otherwise. -/
theorem load_never_misreads_magic :
    let p : Part := ⟨⟨2, 5, 80⟩, #[0x42, 0x54, 0x52, 0x4B, 1, 0], by decide, by decide⟩
    let q : Part := ⟨⟨9, 0, 100⟩, #[5, 1, 0], by decide, by decide⟩
    (∃ data, p.encode = .ok data ∧ (load {} data).value = .ok p ∧ ∀ r, (loadBare {} data).value ≠ .ok r) ∧
      (∃ fault, (load p.settings p.data).value = .error fault ∧ Verdict p.data (.error fault)) ∧
      (load q.settings q.data).value = .ok q ∧
      ((load {} q.data).value = .ok { q with settings := {} } ∨
        ∃ fault, (load {} q.data).value = .error fault) := by
  intro p q
  obtain ⟨hapart, hwritten, hbare, hmagic, heither⟩ := load_never_misreads
  obtain ⟨data, hdata, hload⟩ := hwritten p {} (by decide)
  have hcontainer : (loadContainer data).value = .ok p := loadContainer_eq_iff.2 (verdict_of_encode hdata)
  exact ⟨⟨data, hdata, hload, fun r => hapart data {} p r hcontainer⟩, hmagic p _ (by decide),
    hbare q (by decide), heither q.data {} _ (loadBare_eq_ok.2 ⟨rfl, rfl⟩)⟩

end Chiptune.Part
