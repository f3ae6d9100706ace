import Mathlib.Tactic.Common
import Chiptune.Part.Container
/-!
# Containers

`Verdict` is the grammar of containers, byte by byte, with the first thing that is wrong where data is not
one. Loading answers just what the grammar says (`loadContainer_eq_iff`), and it reports a container
exactly where it makes a part of it (`log_loadContainer`).

Main statements `loadContainer_names_first_fault`, which adds that no container goes on where another one
ends, and `encode_inverse`: writing and loading undo each other.
-/
namespace Chiptune.Part

variable {data : Array UInt8} {v : UInt8} {s : Settings} {n : Nat} {p : Part}
  {r : Except LoadFault Part}

/-! ## The grammar -/

/-- The data starts with the magic and a whole header of these fields, the count with its low byte
first. -/
structure HasHeader (data : Array UInt8) (version : UInt8) (settings : Settings) (count : Nat) : Prop where
  magic : [0x42, 0x54, 0x52, 0x4B] <+: data.toList
  version : data[4]? = some version
  ticks : data[5]? = some settings.ticks
  instrument : data[6]? = some settings.instrument
  volume : data[7]? = some settings.volume
  count : ∃ low high : UInt8, data[8]? = some low ∧ data[9]? = some high ∧
    count = low.toNat + 256 * high.toNat

/-- What there is to say about data as a container: the part that it holds, or the first thing that is
wrong with it. -/
inductive Verdict (data : Array UInt8) : Except LoadFault Part → Prop where
  | badMagic (hmagic : ¬ [0x42, 0x54, 0x52, 0x4B] <+: data.toList) : Verdict data (.error .badMagic)
  | cutHeader (hmagic : [0x42, 0x54, 0x52, 0x4B] <+: data.toList) (hsize : data.size < 10) :
      Verdict data (.error .cutShort)
  | otherVersion {v : UInt8} {s : Settings} {n : Nat} (h : HasHeader data v s n) (hv : v ≠ 1) :
      Verdict data (.error (.otherVersion v))
  | empty {s : Settings} (h : HasHeader data 1 s 0) : Verdict data (.error .empty)
  | cutEntries {s : Settings} {n : Nat} (h : HasHeader data 1 s n) (hn : 0 < n)
      (hsize : data.size < 10 + 3 * n) : Verdict data (.error .cutShort)
  | trailing {s : Settings} {n : Nat} (h : HasHeader data 1 s n) (hn : 0 < n)
      (hsize : 10 + 3 * n < data.size) : Verdict data (.error (.trailing (data.size - (10 + 3 * n))))
  | part {p : Part} {n : Nat} (h : HasHeader data 1 p.settings n) (hn : 0 < n)
      (hsize : data.size = 10 + 3 * n) (hdata : p.data = data.extract 10) : Verdict data (.ok p)

/-! ## Headers -/

/-- A header is ten bytes in a row. -/
theorem hasHeader_iff :
    HasHeader data v s n ↔ ∃ low high rest,
      data.toList = magic.toList ++ v :: s.ticks :: s.instrument :: s.volume :: low :: high :: rest ∧
        n = low.toNat + 256 * high.toNat := by
  constructor
  · rintro ⟨⟨rest, hrest⟩, hversion, hticks, hinstrument, hvolume, low, high, hlow, hhigh, hn⟩
    simp only [← Array.getElem?_toList, ← hrest] at hversion hticks hinstrument hvolume hlow hhigh
    match rest with
    | [] | [_] | [_, _] | [_, _, _] | [_, _, _, _] | [_, _, _, _, _] => simp at hhigh
    | _ :: _ :: _ :: _ :: _ :: _ :: rest =>
      simp only [List.cons_append, List.nil_append, List.getElem?_cons_succ, List.getElem?_cons_zero,
        Option.some.injEq] at hversion hticks hinstrument hvolume hlow hhigh
      subst hversion hticks hinstrument hvolume hlow hhigh
      exact ⟨_, _, rest, hrest.symm, hn⟩
  · rintro ⟨low, high, rest, hdata, hn⟩
    have hget (i : Nat) : data[i]? = (magic.toList ++
        v :: s.ticks :: s.instrument :: s.volume :: low :: high :: rest)[i]? := by
      rw [← hdata, Array.getElem?_toList]
    exact ⟨⟨_, hdata.symm⟩, hget 4, hget 5, hget 6, hget 7, low, high, hget 8, hget 9, hn⟩

/-- Data that is long enough for a header behind the magic has one. -/
theorem exists_hasHeader (hmagic : [0x42, 0x54, 0x52, 0x4B] <+: data.toList) (hsize : 10 ≤ data.size) :
    ∃ v s n, HasHeader data v s n := by
  have hget (i : Nat) (hi : i < 10) : ∃ b, data[i]? = some b :=
    ⟨_, Array.getElem?_eq_getElem (Nat.lt_of_lt_of_le hi hsize)⟩
  obtain ⟨v, hversion⟩ := hget 4 (by decide)
  obtain ⟨ticks, hticks⟩ := hget 5 (by decide)
  obtain ⟨instrument, hinstrument⟩ := hget 6 (by decide)
  obtain ⟨volume, hvolume⟩ := hget 7 (by decide)
  obtain ⟨low, hlow⟩ := hget 8 (by decide)
  obtain ⟨high, hhigh⟩ := hget 9 (by decide)
  exact ⟨v, ⟨ticks, instrument, volume⟩, _, hmagic, hversion, hticks, hinstrument, hvolume, low, high, hlow,
    hhigh, rfl⟩

/-- What is behind a header has no part in it. -/
theorem hasHeader_congr {other : Array UInt8} (hle : data.toList <+: other.toList) (hsize : 10 ≤ data.size) :
    HasHeader data v s n ↔ HasHeader other v s n := by
  have hget {i : Nat} (hi : i < 10) : data[i]? = other[i]? := by
    have hlt : i < data.toList.length := by
      rw [Array.length_toList]
      omega
    rw [← Array.getElem?_toList, ← Array.getElem?_toList, List.getElem?_eq_getElem hlt, hle.getElem hlt,
      List.getElem?_eq_getElem]
  have hmagic : [0x42, 0x54, 0x52, 0x4B] <+: data.toList ↔ [0x42, 0x54, 0x52, 0x4B] <+: other.toList := by
    refine ⟨fun h => h.trans hle, fun h => List.prefix_of_prefix_length_le h hle ?_⟩
    show 4 ≤ data.toList.length
    rw [Array.length_toList]
    omega
  constructor
  · rintro ⟨hm, hversion, hticks, hinstrument, hvolume, low, high, hlow, hhigh, hn⟩
    rw [hget (by decide)] at hversion hticks hinstrument hvolume hlow hhigh
    exact ⟨hmagic.1 hm, hversion, hticks, hinstrument, hvolume, low, high, hlow, hhigh, hn⟩
  · rintro ⟨hm, hversion, hticks, hinstrument, hvolume, low, high, hlow, hhigh, hn⟩
    rw [← hget (by decide)] at hversion hticks hinstrument hvolume hlow hhigh
    exact ⟨hmagic.2 hm, hversion, hticks, hinstrument, hvolume, low, high, hlow, hhigh, hn⟩

namespace HasHeader

theorem size_le (h : HasHeader data v s n) : 10 ≤ data.size := by
  obtain ⟨low, high, -, hhigh, -⟩ := h.count
  exact (Array.getElem?_eq_some_iff.1 hhigh).1

theorem count_le (h : HasHeader data v s n) : n ≤ 65535 := by
  obtain ⟨low, high, -, -, hn⟩ := h.count
  have := low.toNat_lt
  have := high.toNat_lt
  omega

/-- The reader of fields finds the header. -/
theorem read (h : HasHeader data v s n) :
    ∃ header, Header.read data.toList = .ok header ∧ header.version = v ∧ header.settings = s ∧
      header.count.toNat = n := by
  have hle := h.count_le
  obtain ⟨low, high, rest, hdata, hn⟩ := hasHeader_iff.1 h
  refine ⟨_, hdata ▸ Header.read_cons .., rfl, rfl, ?_⟩
  rw [Header.word, ← hn, UInt16.toNat_ofNat_of_lt' (Nat.lt_succ_of_le hle)]

end HasHeader

/-! ## Loading follows the grammar -/

theorem hasMagic_iff : hasMagic data = true ↔ [0x42, 0x54, 0x52, 0x4B] <+: data.toList :=
  List.isPrefixOf_iff_prefix

/-- Loading is reading, less the fault that never comes up. -/
theorem loadContainer_of_decode {log : List LogRecord} (h : decode data = ⟨r.mapError .load, log⟩) :
    loadContainer data = ⟨r, log⟩ := by
  unfold loadContainer
  simp only
  split
  · rename_i p hvalue
    rw [h] at hvalue ⊢
    cases r with
    | error e => cases hvalue
    | ok q =>
      cases hvalue
      rfl
  · rename_i cause hvalue
    rw [h] at hvalue ⊢
    cases r with
    | error e =>
      cases hvalue
      rfl
    | ok q => cases hvalue
  · rename_i cause hvalue
    exact absurd hvalue (decode_ne_unreadable data cause)

/-- Data with a header is what its size and its header say. -/
theorem unpack_eq (header : Header) (hsize : 10 ≤ data.size) (hn : header.count.toNat = n) :
    unpack data header =
      if header.version ≠ 1 then ⟨.error (.otherVersion header.version), []⟩
      else if n = 0 then ⟨.error .empty, []⟩
      else if data.size < 10 + 3 * n then ⟨.error .cutShort, []⟩
      else if 10 + 3 * n < data.size then ⟨.error (.trailing (data.size - (10 + 3 * n))), []⟩
      else ⟨ofData header.settings (data.extract 10), [.containerLoaded n header.settings.ticks
        header.settings.instrument header.settings.volume]⟩ := by
  have hzero : header.count = 0 ↔ n = 0 := by
    rw [← hn, ← UInt16.toNat_inj]
    rfl
  have hsub : data.size - 10 - n * 3 = data.size - (10 + 3 * n) := by omega
  have hlt : data.size - 10 < n * 3 ↔ data.size < 10 + 3 * n := by omega
  have hgt : n * 3 < data.size - 10 ↔ 10 + 3 * n < data.size := by omega
  simp only [unpack, headerSize, Entry.size, Array.size_extract, Nat.min_self, hn, hzero, hlt, hgt, hsub]
  rfl

/-- Behind a whole header, loading depends on the version, the count and the size. -/
theorem HasHeader.loadContainer_eq (h : HasHeader data v s n) :
    loadContainer data =
      if v ≠ 1 then ⟨.error (.otherVersion v), []⟩
      else if n = 0 then ⟨.error .empty, []⟩
      else if data.size < 10 + 3 * n then ⟨.error .cutShort, []⟩
      else if 10 + 3 * n < data.size then ⟨.error (.trailing (data.size - (10 + 3 * n))), []⟩
      else ⟨ofData s (data.extract 10), [.containerLoaded n s.ticks s.instrument s.volume]⟩ := by
  obtain ⟨header, hread, rfl, rfl, hn⟩ := h.read
  have hlong : ¬ data.size < headerSize := Nat.not_lt.2 h.size_le
  have hdecode : decode data =
      ⟨(unpack data header).value.mapError .load, (unpack data header).log⟩ := by
    rw [decode, if_neg (not_not.2 (hasMagic_iff.2 h.magic)), if_neg hlong]
    simp only [hread]
  rw [← unpack_eq header h.size_le hn]
  exact loadContainer_of_decode hdecode

/-- A part passes the checks of its own making. -/
theorem ofData_eq_ok {settings : Settings} {entries : Array UInt8} :
    ofData settings entries = .ok p ↔ p.settings = settings ∧ p.data = entries := by
  constructor
  · intro h
    unfold ofData at h
    split at h
    · split at h
      · cases h
        exact ⟨rfl, rfl⟩
      · cases h
    · cases h
  · rintro ⟨rfl, rfl⟩
    rw [ofData, dif_pos p.nonempty, dif_pos p.whole]

theorem count_eq_of_size (hsize : data.size = 10 + 3 * n)
    (hdata : p.data = data.extract 10) : p.count = n := by
  have hcount := p.count_mul_size
  rw [hdata, Array.size_extract, Nat.min_self, hsize, Entry.size] at hcount
  omega

/-- The report of what was loaded. -/
def loadRecords : Except LoadFault Part → List LogRecord
  | .ok p => [.containerLoaded p.count p.settings.ticks p.settings.instrument p.settings.volume]
  | .error _ => []

/-- **What the grammar says is what loading answers and reports.** -/
theorem loadContainer_of_verdict (h : Verdict data r) : loadContainer data = ⟨r, loadRecords r⟩ := by
  cases h with
  | badMagic hmagic =>
    refine loadContainer_of_decode ?_
    rw [decode, if_pos (fun h => hmagic (hasMagic_iff.1 h))]
    rfl
  | cutHeader hmagic hsize =>
    have hshort : data.size < headerSize := hsize
    refine loadContainer_of_decode ?_
    rw [decode, if_neg (not_not.2 (hasMagic_iff.2 hmagic)), if_pos hshort]
    rfl
  | otherVersion h hv =>
    rw [h.loadContainer_eq, if_pos hv]
    rfl
  | empty h =>
    rw [h.loadContainer_eq, if_neg (not_not.2 rfl), if_pos rfl]
    rfl
  | cutEntries h hn hsize =>
    rw [h.loadContainer_eq, if_neg (not_not.2 rfl), if_neg (Nat.ne_of_gt hn), if_pos hsize]
    rfl
  | trailing h hn hsize =>
    rw [h.loadContainer_eq, if_neg (not_not.2 rfl), if_neg (Nat.ne_of_gt hn), if_neg (Nat.lt_asymm hsize),
      if_pos hsize]
    rfl
  | @part p n h hn hsize hdata =>
    rw [h.loadContainer_eq, if_neg (not_not.2 rfl), if_neg (Nat.ne_of_gt hn), if_neg (by omega),
      if_neg (by omega), ofData_eq_ok.2 ⟨rfl, hdata⟩, loadRecords, count_eq_of_size hsize hdata]

/-- The grammar has something to say about all data. -/
theorem exists_verdict (data : Array UInt8) : ∃ r, Verdict data r := by
  by_cases hmagic : [0x42, 0x54, 0x52, 0x4B] <+: data.toList
  · by_cases hheader : data.size < 10
    · exact ⟨_, .cutHeader hmagic hheader⟩
    · obtain ⟨v, s, n, h⟩ := exists_hasHeader hmagic (Nat.not_lt.1 hheader)
      by_cases hv : v = 1
      · subst hv
        rcases Nat.eq_zero_or_pos n with rfl | hn
        · exact ⟨_, .empty h⟩
        · rcases Nat.lt_trichotomy data.size (10 + 3 * n) with hsize | hsize | hsize
          · exact ⟨_, .cutEntries h hn hsize⟩
          · have hbody : (data.extract 10).size = 3 * n := by
              rw [Array.size_extract]
              omega
            let p : Part := ⟨s, data.extract 10, by omega, by rw [hbody, Entry.size]; omega⟩
            exact ⟨.ok p, .part h hn hsize rfl⟩
          · exact ⟨_, .trailing h hn hsize⟩
      · exact ⟨_, .otherVersion h hv⟩
  · exact ⟨_, .badMagic hmagic⟩

/-- **Loading answers exactly what the grammar says.** -/
theorem loadContainer_eq_iff : (loadContainer data).value = r ↔ Verdict data r := by
  constructor
  · rintro rfl
    obtain ⟨r, hr⟩ := exists_verdict data
    rw [loadContainer_of_verdict hr]
    exact hr
  · intro h
    rw [loadContainer_of_verdict h]

/-- A container is reported exactly where a part is made of it. -/
theorem log_loadContainer (data : Array UInt8) :
    (loadContainer data).log = loadRecords (loadContainer data).value := by
  obtain ⟨r, hr⟩ := exists_verdict data
  rw [loadContainer_of_verdict hr]

/-! ## No container goes on where another one ends -/

theorem toList_extract_prefix (data : Array UInt8) (k : Nat) : (data.extract 0 k).toList <+: data.toList := by
  rw [Array.toList_extract, List.extract_eq_take_drop]
  exact List.take_prefix _ _

/-- A container that is cut anywhere is told to be short, or to be none if it is cut inside the magic. -/
theorem Verdict.extract (h : Verdict data (.ok p)) {k : Nat} (hk : k < data.size) :
    Verdict (data.extract 0 k) (.error (if k < 4 then .badMagic else .cutShort)) := by
  have hsize : (data.extract 0 k).size = k := by
    rw [Array.size_extract]
    omega
  have hlength : (data.extract 0 k).toList.length = k := by rw [Array.length_toList, hsize]
  have hle := toList_extract_prefix data k
  generalize data.extract 0 k = cut at hsize hlength hle ⊢
  cases h with
  | @part p n h hn hall hdata =>
    by_cases hmagic : k < 4
    · rw [if_pos hmagic]
      refine .badMagic fun hprefix => ?_
      have hfour : 4 ≤ cut.toList.length := hprefix.length_le
      omega
    · have hfour : 4 ≤ cut.toList.length := by omega
      rw [if_neg hmagic]
      by_cases hheader : k < 10
      · exact .cutHeader (List.prefix_of_prefix_length_le h.magic hle hfour) (hsize ▸ hheader)
      · exact .cutEntries ((hasHeader_congr hle (by omega)).2 h) hn (by omega)

/-- Bytes behind a container are counted. -/
theorem Verdict.append (h : Verdict data (.ok p)) {tail : Array UInt8} (ht : 0 < tail.size) :
    Verdict (data ++ tail) (.error (.trailing tail.size)) := by
  cases h with
  | @part p n h hn hall hdata =>
    have hlong : HasHeader (data ++ tail) 1 p.settings n :=
      (hasHeader_congr ⟨tail.toList, Array.toList_append.symm⟩ h.size_le).1 h
    have hsize : (data ++ tail).size = 10 + 3 * n + tail.size := by rw [Array.size_append, hall]
    have hrest : tail.size = (data ++ tail).size - (10 + 3 * n) := by omega
    rw [hrest]
    exact .trailing hlong hn (by omega)

/-- **Loading accepts exactly the grammar and names the first fault.** It never tells of bytes that are no
whole entry, of too many entries or of fields that cannot be read, and it reports a container exactly where
it gives a part. A container that is cut anywhere is refused, and so is one that goes on. -/
theorem loadContainer_names_first_fault (data : Array UInt8) :
    (∀ r, (loadContainer data).value = r ↔ Verdict data r) ∧
      (∀ bytes, (loadContainer data).value ≠ .error (.misaligned bytes)) ∧
      (∀ count, (loadContainer data).value ≠ .error (.tooMany count)) ∧
      (∀ cause, (decode data).value ≠ .error (.unreadable cause)) ∧
      (loadContainer data).log = loadRecords (loadContainer data).value ∧
      ∀ p, (loadContainer data).value = .ok p →
        (∀ k < data.size, (loadContainer (data.extract 0 k)).value =
          .error (if k < 4 then .badMagic else .cutShort)) ∧
        ∀ tail : Array UInt8, 0 < tail.size →
          (loadContainer (data ++ tail)).value = .error (.trailing tail.size) := by
  refine ⟨fun r => loadContainer_eq_iff, fun bytes h => ?_, fun count h => ?_, decode_ne_unreadable data,
    log_loadContainer data, fun p h => ⟨fun k hk => ?_, fun tail ht => ?_⟩⟩
  · cases loadContainer_eq_iff.1 h
  · cases loadContainer_eq_iff.1 h
  · exact loadContainer_eq_iff.2 ((loadContainer_eq_iff.1 h).extract hk)
  · exact loadContainer_eq_iff.2 ((loadContainer_eq_iff.1 h).append ht)

/-- A container of two entries is loaded, cut in its magic, header and last entry, and followed by a byte. -/
theorem loadContainer_names_first_fault_two_entries :
    let data : Array UInt8 := #[0x42, 0x54, 0x52, 0x4B, 1, 2, 5, 80, 2, 0, 33, 4, 0, 0xFE, 0, 0]
    let p : Part := ⟨⟨2, 5, 80⟩, #[33, 4, 0, 0xFE, 0, 0], by decide, by decide⟩
    (loadContainer data).value = .ok p ∧
      (loadContainer (data.extract 0 3)).value = .error .badMagic ∧
      (loadContainer (data.extract 0 7)).value = .error .cutShort ∧
      (loadContainer (data.extract 0 15)).value = .error .cutShort ∧
      (loadContainer (data ++ #[0])).value = .error (.trailing 1) := by
  have hload : (loadContainer #[0x42, 0x54, 0x52, 0x4B, 1, 2, 5, 80, 2, 0, 33, 4, 0, 0xFE, 0, 0]).value =
      .ok ⟨⟨2, 5, 80⟩, #[33, 4, 0, 0xFE, 0, 0], by decide, by decide⟩ := rfl
  obtain ⟨-, -, -, -, -, haccepted⟩ := loadContainer_names_first_fault
    #[0x42, 0x54, 0x52, 0x4B, 1, 2, 5, 80, 2, 0, 33, 4, 0, 0xFE, 0, 0]
  obtain ⟨hcut, hlong⟩ := haccepted _ hload
  exact ⟨hload, hcut 3 (by decide), hcut 7 (by decide), hcut 15 (by decide), hlong #[0] (by decide)⟩

/-! ## Writing and loading undo each other -/

/-- The header that is written is the one that is read. -/
theorem Header.hasHeader_toBytes (h : Header) : HasHeader h.toBytes h.version h.settings h.count.toNat := by
  have hlt := h.count.toNat_lt
  have hlow : (UInt8.ofNat (h.count.toNat % 256)).toNat = h.count.toNat % 256 :=
    UInt8.toNat_ofNat_of_lt' (Nat.mod_lt _ (by decide))
  have hhigh : (UInt8.ofNat (h.count.toNat / 256)).toNat = h.count.toNat / 256 :=
    UInt8.toNat_ofNat_of_lt' (Nat.div_lt_of_lt_mul hlt)
  refine hasHeader_iff.2 ⟨.ofNat (h.count.toNat % 256), .ofNat (h.count.toNat / 256), [], rfl, ?_⟩
  rw [hlow, hhigh]
  omega

/-- The header that is read is the one that was written. -/
theorem HasHeader.extract_eq (h : HasHeader data v s n) :
    data.extract 0 10 = (Header.mk v s (.ofNat n)).toBytes := by
  have hcount : (UInt16.ofNat n).toNat = n := UInt16.toNat_ofNat_of_lt' (Nat.lt_succ_of_le h.count_le)
  obtain ⟨low, high, rest, hdata, hn⟩ := hasHeader_iff.1 h
  have hlow : UInt8.ofNat ((UInt16.ofNat n).toNat % 256) = low := by
    have := low.toNat_lt
    rw [hcount, hn, Nat.add_mul_mod_self_left, Nat.mod_eq_of_lt this, UInt8.ofNat_toNat]
  have hhigh : UInt8.ofNat ((UInt16.ofNat n).toNat / 256) = high := by
    have := low.toNat_lt
    rw [hcount, hn, Nat.add_mul_div_left _ _ (by decide), Nat.div_eq_of_lt this, Nat.zero_add, UInt8.ofNat_toNat]
  apply Array.ext'
  rw [Array.toList_extract, hdata, Header.toBytes, hlow, hhigh]
  rfl

theorem encode_of_le (h : p.count ≤ 65535) :
    p.encode = .ok ((Header.mk 1 p.settings (.ofNat p.count)).toBytes ++ p.data) := by
  have hle : p.count ≤ countLimit := h
  rw [encode, header?, if_pos hle]
  rfl

theorem encode_of_lt (h : 65535 < p.count) : p.encode = .error (.tooMany p.count) := by
  have hgt : ¬ p.count ≤ countLimit := Nat.not_le.2 h
  rw [encode, header?, if_neg hgt]

/-- What is written is a container of the part. -/
theorem verdict_of_encode (h : p.encode = .ok data) : Verdict data (.ok p) := by
  have hcount := p.count_mul_size
  rcases Nat.lt_or_ge 65535 p.count with hlt | hle
  · rw [encode_of_lt hlt] at h
    cases h
  · rw [encode_of_le hle] at h
    obtain rfl := Except.ok.inj h
    have hheader := Header.hasHeader_toBytes ⟨1, p.settings, .ofNat p.count⟩
    have hten : (Header.mk 1 p.settings (.ofNat p.count)).toBytes.size = 10 := rfl
    generalize (Header.mk 1 p.settings (.ofNat p.count)).toBytes = bytes at hheader hten ⊢
    rw [UInt16.toNat_ofNat_of_lt' (Nat.lt_succ_of_le hle)] at hheader
    have hbegin : bytes.toList <+: (bytes ++ p.data).toList := ⟨p.data.toList, Array.toList_append.symm⟩
    have hsize : (bytes ++ p.data).size = 10 + 3 * p.count := by
      rw [Array.size_append, hten, ← hcount, Entry.size, Nat.mul_comm]
    have hdata : p.data = (bytes ++ p.data).extract 10 := by
      rw [← hten]
      simp
    exact .part ((hasHeader_congr hbegin (Nat.le_of_eq hten.symm)).1 hheader) p.count_pos hsize hdata

/-- A container of a part is what is written for it. -/
theorem encode_of_verdict (h : Verdict data (.ok p)) : p.encode = .ok data := by
  cases h with
  | @part p n h hn hsize hdata =>
    have hcount := count_eq_of_size hsize hdata
    have hwhole : data.extract 0 10 ++ data.extract 10 = data := by
      rw [Array.extract_append_extract, Nat.zero_min, Nat.max_eq_right h.size_le, Array.extract_size]
    rw [encode_of_le (hcount ▸ h.count_le), hcount, hdata, ← h.extract_eq, hwhole]

/-- **Writing and loading undo each other.** A part is refused exactly if it has more than 65535 entries,
and its number of entries is told. Any other is written as its container, which is loaded as the part; and
every container that is loaded as the part is what is written for it, byte for byte. -/
theorem encode_inverse (p : Part) :
    (∀ fault, p.encode = .error fault ↔ 65535 < p.count ∧ fault = .tooMany p.count) ∧
      (p.count ≤ 65535 → ∃ data, p.encode = .ok data ∧ HasHeader data 1 p.settings p.count ∧
        data.extract 10 = p.data ∧ (loadContainer data).value = .ok p) ∧
      ∀ data, (loadContainer data).value = .ok p → p.encode = .ok data := by
  refine ⟨fun fault => ?_, fun hle => ?_, fun data h => encode_of_verdict (loadContainer_eq_iff.1 h)⟩
  · rcases Nat.lt_or_ge 65535 p.count with hlt | hle
    · rw [encode_of_lt hlt]
      simp [hlt, eq_comm]
    · rw [encode_of_le hle]
      simp [Nat.not_lt.2 hle]
  · have hencode := encode_of_le hle
    have hverdict := verdict_of_encode hencode
    have hload := loadContainer_eq_iff.2 hverdict
    cases hverdict with
    | part h hn hsize hdata =>
      obtain rfl := count_eq_of_size hsize hdata
      exact ⟨_, hencode, h, hdata.symm, hload⟩

/-- The longest part there is a container for, and two entries that come back as the bytes they were. -/
theorem encode_inverse_longest :
    let p : Part := ⟨⟨3, 1, 60⟩, .replicate 196605 0, by rw [Array.size_replicate]; decide,
      by rw [Array.size_replicate, Entry.size]⟩
    let q : Part := ⟨⟨2, 5, 80⟩, #[33, 4, 0, 0xFE, 0, 0], by decide, by decide⟩
    p.count = 65535 ∧ (∃ data, p.encode = .ok data ∧ (loadContainer data).value = .ok p) ∧
      q.encode = .ok #[0x42, 0x54, 0x52, 0x4B, 1, 2, 5, 80, 2, 0, 33, 4, 0, 0xFE, 0, 0] := by
  intro p q
  have hcount : p.count = 65535 := by rw [count, Array.size_replicate, Entry.size]
  obtain ⟨-, hwritten, -⟩ := encode_inverse p
  obtain ⟨data, hencode, -, -, hload⟩ := hwritten (Nat.le_of_eq hcount)
  exact ⟨hcount, ⟨data, hencode, hload⟩, (encode_inverse q).2.2 _ rfl⟩

end Chiptune.Part
