import Mathlib.Tactic.Common
import Chiptune.Entry
/-!
# Entries by position and in order

`Entry.all` cuts the data into entries one after the other, `Entry.ofBytes` and `Entry.read` go to an
offset. Both find the same entry at every position (`getElem?_all`), and one or two bytes at the end belong
to no entry (`all_append`, `read_append`).

Main statement `read_finds_entries`.
-/
namespace Chiptune.Entry

/-! ## In order -/

/-- What was collected before stays in front. -/
theorem toList_collect : ∀ (done : Array Entry) (bytes : List UInt8),
    (collect done bytes).toList = done.toList ++ (collect #[] bytes).toList
  | done, [] | done, [_] | done, [_, _] => by simp [collect]
  | done, note :: duration :: flags :: rest => by
    rw [collect, collect, toList_collect (done.push _), toList_collect (Array.push #[] _)]
    simp

theorem getElem?_collect : ∀ (bytes : List UInt8) (i : Nat),
    (collect #[] bytes).toList[i]? =
      if h : 3 * i + 3 ≤ bytes.length then some ⟨bytes[3 * i], bytes[3 * i + 1], bytes[3 * i + 2]⟩
      else none
  | [], _ | [_], _ | [_, _], _ => by simp [collect]
  | note :: duration :: flags :: rest, 0 => by
    rw [collect, toList_collect]; simp
  | note :: duration :: flags :: rest, i + 1 => by
    rw [collect, toList_collect]
    have ih := getElem?_collect rest i
    simp [ih, Nat.mul_add]

/-- **The entry at a position is the one at its offset**, and there is none where its three bytes do not
lie wholly inside the data. -/
theorem getElem?_all (data : Array UInt8) (i : Nat) :
    (all data).toList[i]? =
      if h : i * size + size ≤ data.size then some (ofBytes data (i * size) h) else none := by
  rw [all, getElem?_collect]
  simp only [Array.length_toList, ofBytes, size, Array.getElem_toList, Nat.mul_comm 3 i]
  rfl

/-- All whole entries, and nothing for a cut one. -/
theorem size_all (data : Array UInt8) : (all data).size = data.size / size := by
  have hlt (i : Nat) : (all data).size ≤ i ↔ data.size / size ≤ i := by
    rw [← Array.length_toList, ← List.getElem?_eq_none_iff, getElem?_all]
    unfold size
    split
    · simp only [reduceCtorEq, false_iff]; omega
    · simp only [true_iff]; omega
  have h₁ := hlt (all data).size
  have h₂ := hlt (data.size / size)
  omega

/-- The bytes of all entries are the data, if no entry is cut. -/
theorem flatMap_toBytes_collect : ∀ bytes : List UInt8, bytes.length % size = 0 →
    (collect #[] bytes).toList.flatMap toBytes = bytes
  | [], _ => rfl
  | [_], h | [_, _], h => by cases h
  | note :: duration :: flags :: rest, h => by
    have hrest : rest.length % size = 0 := by
      simp only [List.length_cons, size] at *
      omega
    rw [collect, toList_collect, List.flatMap_append, flatMap_toBytes_collect rest hrest]
    rfl

/-! ## By position -/

/-- Reading goes to the offset wherever the entry is in the data and its end has an address. -/
theorem read_eq_some {data : Array UInt8} {i : Nat} (h : i * size + size ≤ data.size)
    (haddr : i * size + size < word64Limit) : read data i = some (ofBytes data (i * size) h) := by
  have hstart : i * size < word64Limit := by omega
  simp [read, word64?, hstart, haddr, h]

/-- What is read has an address and lies in the data. -/
theorem exists_read_iff {data : Array UInt8} {i : Nat} :
    (∃ e, read data i = some e) ↔ i * size + size < word64Limit ∧ i * size + size ≤ data.size := by
  constructor
  · rintro ⟨e, he⟩
    simp only [read, word64?, Option.bind_eq_bind, Option.bind_eq_some_iff, Option.ite_none_right_eq_some,
      Option.dite_none_right_eq_some, Option.some.injEq] at he
    obtain ⟨_, ⟨-, rfl⟩, _, ⟨haddr, -⟩, h, -⟩ := he
    exact ⟨haddr, h⟩
  · rintro ⟨haddr, h⟩
    exact ⟨_, read_eq_some h haddr⟩

theorem toBytes_ofBytes {data : Array UInt8} {start : Nat} (h : start + size ≤ data.size) :
    (ofBytes data start h).toBytes = (data.extract start (start + size)).toList := by
  have hsize : (data.extract start (start + size)).size = size := by
    rw [Array.size_extract]
    omega
  apply List.ext_getElem
  · exact hsize.symm
  · intro k hk _
    -- The three bytes are those at the offset and at the two places after it.
    match k, hk with
    | 0, _ | 1, _ | 2, _ => simp only [toBytes, ofBytes, Array.getElem_toList, Array.getElem_extract]; rfl

/-- In data whose bytes all have addresses, both ways find the same. -/
theorem read_eq_getElem? {data : Array UInt8} (hdata : data.size < word64Limit) (i : Nat) :
    read data i = (all data)[i]? := by
  rw [← Array.getElem?_toList, getElem?_all]
  split
  · rename_i h
    exact read_eq_some h (Nat.lt_of_le_of_lt h hdata)
  · rename_i h
    by_contra hread
    obtain ⟨e, he⟩ := Option.ne_none_iff_exists'.1 hread
    exact h (exists_read_iff.1 ⟨e, he⟩).2

/-! ## Bytes at the end -/

theorem ofBytes_append {data tail : Array UInt8} {start : Nat} (h : start + size ≤ data.size)
    (h' : start + size ≤ (data ++ tail).size) : ofBytes (data ++ tail) start h' = ofBytes data start h := by
  have hend : start + 3 ≤ data.size := h
  simp only [ofBytes, Entry.mk.injEq]
  exact ⟨Array.getElem_append_left (by omega), Array.getElem_append_left (by omega),
    Array.getElem_append_left (by omega)⟩

/-- One or two bytes behind whole entries are in none. -/
theorem all_append {data tail : Array UInt8} (hwhole : data.size % size = 0) (htail : tail.size < size) :
    all (data ++ tail) = all data := by
  rw [← Array.toList_inj]
  apply List.ext_getElem?
  intro i
  rw [getElem?_all, getElem?_all]
  by_cases h : i * size + size ≤ data.size
  · have hend : i * size + size ≤ (data ++ tail).size := by
      rw [Array.size_append]
      omega
    rw [dif_pos h, dif_pos hend, ofBytes_append h hend]
  · have hend : ¬ i * size + size ≤ (data ++ tail).size := by
      simp only [Array.size_append, size] at *
      omega
    rw [dif_neg h, dif_neg hend]

theorem read_append {data tail : Array UInt8} (hwhole : data.size % size = 0) (htail : tail.size < size)
    (hdata : (data ++ tail).size < word64Limit) (i : Nat) : read (data ++ tail) i = read data i := by
  have hsize : data.size < word64Limit := by
    rw [Array.size_append] at hdata
    omega
  rw [read_eq_getElem? hdata, read_eq_getElem? hsize, all_append hwhole htail]

/-! ## One sequence of entries -/

/-- **Reading by position and reading in order find the same entries.** In data whose bytes all have addresses
there is an entry at a position exactly if its three bytes lie in the data, and never where the end of the entry
has no address. It is the one that comes at this position in order, and its bytes are those of the data. In order
there are as many entries as three goes into the bytes, so that one or two bytes at the end are seen in neither
way. -/
theorem read_finds_entries {data : Array UInt8} (hdata : data.size < word64Limit) :
    (∀ i, (∃ e, read data i = some e) ↔ 3 * i + 3 ≤ data.size) ∧
    (∀ i, word64Limit ≤ 3 * i + 3 → read data i = none) ∧
    (∀ i, read data i = (all data)[i]?) ∧
    (∀ i e, read data i = some e → e.toBytes = (data.extract (3 * i) (3 * i + 3)).toList) ∧
    (all data).size = data.size / 3 ∧
    ∀ whole tail : Array UInt8, data = whole ++ tail → whole.size % 3 = 0 → tail.size < 3 →
      all data = all whole ∧ ∀ i, read data i = read whole i := by
  have hread (i : Nat) : (∃ e, read data i = some e) ↔ 3 * i + 3 ≤ data.size := by
    rw [exists_read_iff]
    simp only [size]
    omega
  refine ⟨hread, fun i hi => ?_, read_eq_getElem? hdata, fun i e he => ?_, size_all data, ?_⟩
  · refine Option.eq_none_iff_forall_ne_some.2 fun e he => ?_
    have hend := (hread i).1 ⟨e, he⟩
    omega
  · obtain ⟨haddr, hend⟩ := exists_read_iff.1 ⟨e, he⟩
    rw [read_eq_some hend haddr, Option.some.injEq] at he
    rw [← he, toBytes_ofBytes hend, Nat.mul_comm 3 i]
    rfl
  · rintro whole tail rfl hwhole htail
    exact ⟨all_append hwhole htail, read_append hwhole htail hdata⟩

/-- Two entries and a byte, which is in no entry. A position whose offset would come to 2 in 64 bits has no entry
either. -/
theorem read_finds_entries_cut :
    let data : Array UInt8 := #[33, 1, 0, 0xFE, 0, 7, 12]
    data.size < word64Limit ∧ read data 1 = some ⟨0xFE, 0, 7⟩ ∧ (all data)[1]? = some ⟨0xFE, 0, 7⟩ ∧
      (⟨0xFE, 0, 7⟩ : Entry).toBytes = (data.extract 3 6).toList ∧ read data 2 = none ∧
      3 * 0x5555555555555556 = word64Limit + 2 ∧ read data 0x5555555555555556 = none ∧
      (all data).size = 2 ∧ all data = all #[33, 1, 0, 0xFE, 0, 7] := by
  intro data
  have hdata : data.size < word64Limit := by decide
  obtain ⟨hread, haddr, hsame, hbytes, hsize, htail⟩ := read_finds_entries hdata
  have hsecond : read data 1 = some ⟨0xFE, 0, 7⟩ := rfl
  have hnone : read data 2 = none := by
    refine Option.eq_none_iff_forall_ne_some.2 fun e he => ?_
    exact absurd ((hread 2).1 ⟨e, he⟩) (by decide)
  exact ⟨hdata, hsecond, hsame 1 ▸ hsecond, hbytes 1 _ hsecond, hnone, by decide, haddr _ (by decide),
    hsize.trans (by decide), (htail #[33, 1, 0, 0xFE, 0, 7] #[12] rfl rfl (by decide)).1⟩

end Chiptune.Entry
