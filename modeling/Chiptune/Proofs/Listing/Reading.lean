import Chiptune.Proofs.Listing
import Chiptune.Proofs.Text
/-!
# Listings read back

A row shows its position, its bytes, its role and its frequency in fields of their own, however wide they are
(`fields_headText`, `fields_roleText`), so it can be read back (`read?_text`). The rows show the entries of a part
one after the other, and these are its data.

Main statement `listing_reads_back`.
-/
namespace Chiptune

namespace ListingRow

open Text

/-! ## One row -/

/-- A byte in hexadecimal. -/
def hexByte? (cs : List Char) : Option UInt8 := (hexadecimal? cs).bind (below? UInt8.size UInt8.ofNat)

/-- The number of a note. -/
def number? (text : String) : Option UInt8 := (natural? text.toList).bind (below? UInt8.size UInt8.ofNat)

/-- A frequency in hertz. -/
def hertz? (text : String) : Option UInt16 := (natural? text.toList).bind (below? UInt16.size UInt16.ofNat)

/-- What the fields behind the bytes tell: the role, the frequency of a note, and the wait. -/
def roleOf? : List String → Option (Role × Option UInt16 × Option Nat)
  | ["note", number, hz, "Hz", "wait", wait] => do
    return (.note (← number? number), some (← hertz? hz), some (← natural? wait.toList))
  | ["note", number, "wait", wait] => do return (.note (← number? number), none, some (← natural? wait.toList))
  | ["rest", "wait", wait] => do return (.rest, none, some (← natural? wait.toList))
  | ["empty", "wait", wait] => do return (.empty, none, some (← natural? wait.toList))
  | ["end", "->", "0000"] => some (.endMark, none, none)
  | _ => none

/-- The row that a line tells, and the wait that it shows. -/
def read? (line : String) : Option (ListingRow × Option Nat) :=
  match fields line.toList with
  | index :: note :: duration :: flags :: rest => do
    let (role, frequency, wait) ← roleOf? (rest.map String.ofList)
    return (
      { index := ← natural? index
        entry := { note := ← hexByte? note, duration := ← hexByte? duration, flags := ← hexByte? flags }
        role
        frequency },
      wait)
  | _ => none

variable (r : ListingRow)

/-- The wait that a row shows; an end mark shows none. -/
def shownWait : Option Nat := if r.role = .endMark then none else some r.entry.duration.toNat

/-- The fields behind the bytes. -/
def roleFields : List String :=
  let wait := ["wait", String.ofList (decimal r.entry.duration.toNat)]
  match r.role, r.frequency with
  | .note number, some hz =>
    ["note", String.ofList (decimal number.toNat), String.ofList (decimal hz.toNat), "Hz"] ++ wait
  | .note number, none => ["note", String.ofList (decimal number.toNat)] ++ wait
  | .rest, _ => "rest" :: wait
  | .empty, _ => "empty" :: wait
  | .endMark, _ => ["end", "->", "0000"]

theorem isField_byteText (b : UInt8) : IsField (byteText b) := isField_hexZeros 2 b.toNat

theorem hexByte?_byteText (b : UInt8) : hexByte? (byteText b) = some b := by
  rw [hexByte?, byteText, hexadecimal?_hexZeros, Option.bind_some, below?_of_lt b.toNat_lt_size, UInt8.ofNat_toNat]

theorem number?_decimal (b : UInt8) : number? (String.ofList (decimal b.toNat)) = some b := by
  rw [number?, String.toList_ofList, natural?_decimal, Option.bind_some, below?_of_lt b.toNat_lt_size,
    UInt8.ofNat_toNat]

theorem hertz?_decimal (hz : UInt16) : hertz? (String.ofList (decimal hz.toNat)) = some hz := by
  rw [hertz?, String.toList_ofList, natural?_decimal, Option.bind_some, below?_of_lt hz.toNat_lt_size,
    UInt16.ofNat_toNat]

/-- **Position and bytes are four fields**, also where the position is wide. -/
theorem fields_headText (rest : List Char) :
    fields (r.headText ++ rest) = decimalZeros 4 r.index :: byteText r.entry.note :: byteText r.entry.duration ::
      byteText r.entry.flags :: fields rest := by
  have hhead : r.headText ++ rest =
      decimalZeros 4 r.index ++ ' ' :: ' ' :: (byteText r.entry.note ++ ' ' :: (byteText r.entry.duration ++ ' ' ::
        (byteText r.entry.flags ++ ' ' :: ' ' :: rest))) := by
    simp [headText]
  rw [hhead, fields_append (isField_decimalZeros 4 _), fields_blank, fields_append (isField_byteText _),
    fields_append (isField_byteText _), fields_append (isField_byteText _), fields_blank]

theorem waitText_eq : r.waitText = ' ' :: ' ' :: ("wait".toList ++ ' ' :: decimal r.entry.duration.toNat) := rfl

theorem fields_waitText {w : List Char} (h : IsField w) :
    fields (w ++ r.waitText) = [w, "wait".toList, decimal r.entry.duration.toNat] := by
  have hwait : IsField "wait".toList := by decide
  rw [waitText_eq, fields_append h, fields_blank, fields_append hwait, fields_of_isField (isField_decimal _)]

/-- **Each shape of a row has fields of its own.** -/
theorem fields_roleText : (fields r.roleText).map String.ofList = r.roleFields := by
  have hnote : IsField "note".toList := by decide
  obtain ⟨index, entry, role, frequency⟩ := r
  cases role with
  | note number =>
    cases frequency with
    | some hz =>
      have htext : roleText ⟨index, entry, .note number, some hz⟩ =
          "note".toList ++ ' ' :: (decimalColumn 3 number.toNat ++ ' ' :: (decimalColumn 5 hz.toNat ++ ' ' ::
            ("Hz".toList ++ waitText ⟨index, entry, .note number, some hz⟩))) := by
        simp [roleText]
      rw [htext, fields_append hnote, fields_decimalColumn, fields_append (isField_decimal _), fields_decimalColumn,
        fields_append (isField_decimal _), fields_waitText _ (by decide)]
      rfl
    | none =>
      have htext : roleText ⟨index, entry, .note number, none⟩ =
          "note".toList ++ ' ' :: (decimalColumn 3 number.toNat ++ waitText ⟨index, entry, .note number, none⟩) := by
        simp [roleText]
      rw [htext, fields_append hnote, fields_decimalColumn, fields_waitText _ (isField_decimal _)]
      rfl
  | rest =>
    rw [roleText, fields_waitText _ (by decide)]
    rfl
  | empty =>
    rw [roleText, fields_waitText _ (by decide)]
    rfl
  | endMark =>
    have hmark : (fields "end -> 0000".toList).map String.ofList = ["end", "->", "0000"] := by decide
    exact hmark

/-- **A row is read back from its line**, if it gives no frequency to what is no note. -/
theorem read?_text (h : ∀ hz, r.frequency = some hz → ∃ number, r.role = .note number) :
    read? r.text = some (r, r.shownWait) := by
  have hfields : fields r.text.toList = decimalZeros 4 r.index :: byteText r.entry.note ::
      byteText r.entry.duration :: byteText r.entry.flags :: fields r.roleText := by
    rw [text, String.toList_ofList, fields_headText]
  have hrole : roleOf? r.roleFields = some (r.role, r.frequency, r.shownWait) := by
    obtain ⟨index, entry, role, frequency⟩ := r
    cases role with
    | note number =>
      cases frequency <;> simp [roleFields, roleOf?, number?_decimal, hertz?_decimal, natural?_decimal, shownWait]
    | rest | empty | endMark =>
      obtain rfl : frequency = none := by
        cases frequency with
        | none => rfl
        | some hz =>
          obtain ⟨_, hnumber⟩ := h hz rfl
          cases hnumber
      simp [roleFields, roleOf?, natural?_decimal, shownWait]
  simp only [read?, hfields, fields_roleText, hrole, natural?_decimalZeros, hexByte?_byteText]
  rfl

theorem newline_not_mem_text : '\n' ∉ r.text.toList := by
  have hindex := (isField_decimalZeros 4 r.index).newline_not_mem
  have hbyte (b : UInt8) := (isField_byteText b).newline_not_mem
  have hwait : '\n' ∉ r.waitText := by simp [waitText_eq, (isField_decimal _).newline_not_mem]
  have hrole : '\n' ∉ r.roleText := by
    unfold roleText
    split <;> simp [newline_not_mem_decimalColumn, hwait]
  simp [text, headText, hindex, hbyte, hrole]

end ListingRow

/-! ## A whole listing -/

namespace Part

variable {p : Part} {tuning : Tuning} {row : ListingRow}

theorem length_listing (p : Part) (tuning : Tuning) : (p.listing tuning).length = p.count := by
  simp [listing, Entry.size_all, count]

/-- The row at a position shows the position and the entry at its offset. -/
theorem getElem?_listing_eq_some {i : Nat} (h : (p.listing tuning)[i]? = some row) :
    ∃ hend : i * Entry.size + Entry.size ≤ p.data.size,
      row = .ofEntry tuning i (.ofBytes p.data (i * Entry.size) hend) := by
  rw [getElem?_listing, Entry.getElem?_all] at h
  split at h
  case isTrue hend => exact ⟨hend, (Option.some.inj h).symm⟩
  case isFalse => cases h

theorem exists_of_mem_listing (h : row ∈ p.listing tuning) : ∃ i e, row = .ofEntry tuning i e := by
  obtain ⟨i, hi⟩ := List.mem_iff_getElem?.1 h
  obtain ⟨hend, rfl⟩ := getElem?_listing_eq_some hi
  exact ⟨i, _, rfl⟩

/-- **The bytes of all rows are the data.** -/
theorem flatMap_toBytes_listing (p : Part) (tuning : Tuning) :
    ((p.listing tuning).flatMap fun row => row.entry.toBytes) = p.data.toList := by
  have hentries : (p.listing tuning).map (·.entry) = (Entry.all p.data).toList := by
    rw [listing, List.map_map]
    exact List.zipIdx_map_fst 0 _
  have hwhole : p.data.toList.length % Entry.size = 0 := p.whole
  have hbytes := Entry.flatMap_toBytes_collect _ hwhole
  rwa [← Entry.all, ← hentries, List.flatMap_map] at hbytes

theorem read?_of_mem_listing (h : row ∈ p.listing tuning) :
    ListingRow.read? row.text = some (row, row.shownWait) := by
  obtain ⟨i, e, rfl⟩ := exists_of_mem_listing h
  refine ListingRow.read?_text _ fun hz hfrequency => ?_
  simp only [ListingRow.ofEntry] at hfrequency ⊢
  cases hrole : e.role tuning with
  | note number => exact ⟨number, rfl⟩
  | rest | endMark | empty => rw [hrole] at hfrequency; cases hfrequency

/-- Listings that print the same are listings of the same data. -/
theorem data_eq_of_unlines_eq {q : Part} {other : Tuning}
    (h : Text.unlines ((p.listing tuning).map (·.text)) = Text.unlines ((q.listing other).map (·.text))) :
    p.data = q.data := by
  have hlines (p : Part) (tuning : Tuning) :
      Text.lines (Text.unlines ((p.listing tuning).map (·.text))) = (p.listing tuning).map (·.text) :=
    Text.lines_unlines (List.forall_mem_map.2 fun row _ => row.newline_not_mem_text)
  have hread (p : Part) (tuning : Tuning) :
      ((p.listing tuning).map (·.text)).map ListingRow.read? =
        (p.listing tuning).map fun row => some (row, row.shownWait) := by
    rw [List.map_map]
    refine List.map_congr_left fun row hrow => ?_
    rw [Function.comp_apply, read?_of_mem_listing hrow]
  have htexts : (p.listing tuning).map (·.text) = (q.listing other).map (·.text) := by rw [← hlines p, h, hlines]
  have hrows : p.listing tuning = q.listing other := by
    have hmaps := congrArg (List.map ListingRow.read?) htexts
    rw [hread, hread] at hmaps
    exact (List.map_inj_right fun a b hab => (Prod.mk.inj (Option.some.inj hab)).1).1 hmaps
  rw [← Array.toList_inj, ← flatMap_toBytes_listing p tuning, hrows, flatMap_toBytes_listing]

end Part

/-- **A listing loses nothing.** A part has a row for each of its entries; the row at a position shows the position
and the entry that is read there, and the bytes of all rows are the data of the part. From the line of a row its
position, its bytes, its role and its frequency are read back, and a wait, which is the duration unless the row is
that of an end mark. So parts whose listings print the same text, under whatever tunings, have the same data. -/
theorem listing_reads_back (p : Part) (tuning : Tuning) :
    let rows := p.listing tuning
    rows.length = p.count ∧
    (∀ i row, rows[i]? = some row →
      row.index = i ∧ (p.data.size < word64Limit → Entry.read p.data i = some row.entry)) ∧
    (rows.flatMap fun row => row.entry.toBytes) = p.data.toList ∧
    (∀ row ∈ rows, ListingRow.read? row.text =
      some (row, if row.role = .endMark then none else some row.entry.duration.toNat)) ∧
    ∀ (q : Part) (other : Tuning),
      Text.unlines (rows.map (·.text)) = Text.unlines ((q.listing other).map (·.text)) → p.data = q.data := by
  intro rows
  refine ⟨p.length_listing tuning, fun i row hrow => ?_, p.flatMap_toBytes_listing tuning,
    fun row hrow => Part.read?_of_mem_listing hrow, fun q other h => Part.data_eq_of_unlines_eq h⟩
  obtain ⟨hend, rfl⟩ := Part.getElem?_listing_eq_some hrow
  exact ⟨rfl, fun hsize => Entry.read_eq_some hend (Nat.lt_of_le_of_lt hend hsize)⟩

/-- A note, a rest, an unused entry and an end mark; and a part that prints the same with other settings. -/
theorem listing_reads_back_every_role :
    let p : Part := ⟨{}, #[33, 4, 0, 60, 2, 0, 0xFF, 5, 0, 0xFE, 0, 0], by decide, by decide⟩
    let q : Part := ⟨{ volume := 7 }, p.data, p.nonempty, p.whole⟩
    let row : ListingRow := ⟨0, ⟨33, 4, 0⟩, .note 33, some 440⟩
    let line := "0000  21 04 00  note  33   440 Hz  wait 4"
    (p.listing .reference)[0]? = some row ∧ p.data.size < word64Limit ∧ Entry.read p.data 0 = some ⟨33, 4, 0⟩ ∧
      row.text = line ∧ ListingRow.read? line = some (row, some 4) ∧
      Text.unlines ((p.listing .reference).map (·.text)) = Text.unlines ((q.listing .reference).map (·.text)) ∧
      p.data = q.data := by
  intro p q row line
  have hrow : (p.listing .reference)[0]? = some row := rfl
  have hsize : p.data.size < word64Limit := by decide
  have htext : row.text = line := by decide
  obtain ⟨-, hentries, -, hread, hsame⟩ := listing_reads_back p .reference
  have hline := hread row (List.mem_of_getElem? hrow)
  rw [htext] at hline
  exact ⟨hrow, hsize, (hentries 0 row hrow).2 hsize, htext, hline, rfl, hsame q .reference rfl⟩

end Chiptune
