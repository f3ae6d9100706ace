import Mathlib.Tactic.Common
import Chiptune.Text.Numeral
/-!
# Text read back

What is written as numerals, fields and lines can be read back. Leading zeros and leading blanks change nothing
(`natural?_decimalZeros`, `hexadecimal?_hexZeros`, `fields_decimalColumn`), and a numeral that is wider than its
column still ends at a blank (`fields_append`). A text of lines has just these lines, if none of them holds a
newline (`lines_unlines`).
-/
namespace Chiptune.Text

/-! ## Decimal numerals -/

theorem natural?_of_isDigit {cs : List Char} (hne : cs ≠ []) (h : ∀ c ∈ cs, c.isDigit = true) :
    natural? cs = some (Nat.ofDigitChars 10 cs 0) := by
  refine if_neg ?_
  simpa [hne] using h

theorem isDigit_of_mem_decimal {n : Nat} {c : Char} (h : c ∈ decimal n) : c.isDigit = true :=
  Nat.isDigit_of_mem_toDigits (by decide) (by decide) h

theorem ofDigitChars_zeros (k : Nat) : Nat.ofDigitChars 10 (List.replicate k '0') 0 = 0 := by
  induction k with
  | zero => rfl
  | succ k ih => rwa [List.replicate_succ, Nat.ofDigitChars_cons]

/-- **A decimal numeral is read back**, whatever its leading zeros. -/
theorem natural?_decimalZeros (width n : Nat) : natural? (decimalZeros width n) = some n := by
  rw [decimalZeros, List.leftpad, natural?_of_isDigit]
  · rw [Nat.ofDigitChars_append, ofDigitChars_zeros, decimal, Nat.ofDigitChars_ten_toDigits]
  · simp [decimal, Nat.toDigits_ne_nil]
  · intro c hc
    rcases List.mem_append.1 hc with hc | hc
    · rw [List.eq_of_mem_replicate hc]
      rfl
    · exact isDigit_of_mem_decimal hc

theorem natural?_decimal (n : Nat) : natural? (decimal n) = some n := by
  have h := natural?_decimalZeros 0 n
  rwa [decimalZeros, List.leftpad, Nat.zero_sub] at h

/-! ## Hexadecimal numerals -/

/-- The value of a hexadecimal digit, letters in upper case. -/
def hexDigit? (c : Char) : Option Nat :=
  if c.isDigit then some (c.toNat - '0'.toNat)
  else if 'A' ≤ c ∧ c ≤ 'F' then some (c.toNat - 'A'.toNat + 10)
  else none

/-- The number that begins as `n` and goes on with these hexadecimal digits. -/
def hexValue? (n : Nat) (cs : List Char) : Option Nat :=
  cs.foldlM (fun n c => (hexDigit? c).map (16 * n + ·)) n

/-- The number with these hexadecimal digits; there is at least one, and nothing else. -/
def hexadecimal? (cs : List Char) : Option Nat := if cs.isEmpty then none else hexValue? 0 cs

theorem hexDigit?_toUpper : ∀ d < 16, hexDigit? (Nat.digitChar d).toUpper = some d := by decide

theorem hexValue?_append (n : Nat) (cs ds : List Char) :
    hexValue? n (cs ++ ds) = (hexValue? n cs).bind (hexValue? · ds) := List.foldlM_append

theorem hexValue?_zeros (k : Nat) : hexValue? 0 (List.replicate k '0') = some 0 := by
  induction k with
  | zero => rfl
  | succ k ih => exact ih

theorem hex_of_lt {n : Nat} (h : n < 16) : hex n = [(Nat.digitChar n).toUpper] := by
  rw [hex, Nat.toDigits_of_lt_base h, List.map_singleton]

theorem hex_of_le {n : Nat} (h : 16 ≤ n) : hex n = hex (n / 16) ++ [(Nat.digitChar (n % 16)).toUpper] := by
  rw [hex, Nat.toDigits_of_base_le (by decide) h, List.map_append, List.map_singleton, hex]

/-- A hexadecimal numeral is a single digit, or a numeral with one digit more. -/
theorem hex_induction {motive : Nat → List Char → Prop}
    (digit : ∀ d < 16, motive d [(Nat.digitChar d).toUpper])
    (next : ∀ n d, d < 16 → motive n (hex n) → motive (16 * n + d) (hex n ++ [(Nat.digitChar d).toUpper]))
    (n : Nat) : motive n (hex n) := by
  induction n using Nat.strongRecOn with
  | ind n ih =>
    by_cases h : n < 16
    · rw [hex_of_lt h]
      exact digit n h
    · have hnext := next (n / 16) (n % 16) (Nat.mod_lt n (by decide)) (ih (n / 16) (by omega))
      rwa [Nat.div_add_mod, ← hex_of_le (Nat.le_of_not_lt h)] at hnext

theorem hexValue?_hex (n : Nat) : hexValue? 0 (hex n) = some n := by
  refine hex_induction (motive := fun n cs => hexValue? 0 cs = some n) (fun d hd => ?_) (fun n d hd ih => ?_) n
  · simp [hexValue?, hexDigit?_toUpper d hd]
  · rw [hexValue?_append, ih]
    simp [hexValue?, hexDigit?_toUpper d hd]

theorem hex_ne_nil (n : Nat) : hex n ≠ [] := by simp [hex, Nat.toDigits_ne_nil]

/-- **A hexadecimal numeral is read back**, whatever its leading zeros. -/
theorem hexadecimal?_hexZeros (width n : Nat) : hexadecimal? (hexZeros width n) = some n := by
  have hvalue : hexValue? 0 (hexZeros width n) = some n := by
    rw [hexZeros, List.leftpad, hexValue?_append, hexValue?_zeros]
    exact hexValue?_hex n
  rw [hexadecimal?, if_neg (by simp [hexZeros, List.leftpad, hex_ne_nil]), hvalue]

/-! ## Numbers of bounded width -/

/-- The value that `ofNat` makes of a number, if the number is below a limit. -/
def below? {α : Type} (limit : Nat) (ofNat : Nat → α) (n : Nat) : Option α :=
  if n < limit then some (ofNat n) else none

theorem below?_of_lt {α : Type} {limit n : Nat} (h : n < limit) (ofNat : Nat → α) :
    below? limit ofNat n = some (ofNat n) := if_pos h

/-! ## Fields of a line -/

/-- The fields of a line, between blanks. -/
def fields (line : List Char) : List (List Char) := (line.splitOnP Char.isWhitespace).filter (· ≠ [])

/-- There is something, and no blank in it. -/
structure IsField (cs : List Char) : Prop where
  nonempty : cs ≠ []
  solid : ∀ c ∈ cs, c.isWhitespace = false

instance (cs : List Char) : Decidable (IsField cs) :=
  decidable_of_iff (cs.isEmpty = false ∧ cs.all (!·.isWhitespace) = true)
    ⟨fun h => ⟨by simpa using h.1, by simpa using h.2⟩, fun h => ⟨by simpa using h.1, by simpa using h.2⟩⟩

theorem fields_blank (rest : List Char) : fields (' ' :: rest) = fields rest := by
  rw [fields, List.splitOnP_cons_eq_if_modifyHead, if_pos (by decide), List.filter_cons_of_neg (by simp), fields]

theorem fields_blanks (k : Nat) (rest : List Char) : fields (List.replicate k ' ' ++ rest) = fields rest := by
  induction k with
  | zero => rfl
  | succ k ih => rw [List.replicate_succ, List.cons_append, fields_blank, ih]

theorem fields_append {w : List Char} (h : IsField w) (rest : List Char) :
    fields (w ++ ' ' :: rest) = w :: fields rest := by
  rw [fields, List.splitOnP_append_cons_of_forall_mem h.solid ' ' (by decide),
    List.filter_cons_of_pos (by simpa using h.nonempty), fields]

theorem fields_of_isField {w : List Char} (h : IsField w) : fields w = [w] := by
  rw [fields, List.splitOnP_eq_singleton h.solid, List.filter_cons_of_pos (by simpa using h.nonempty),
    List.filter_nil]

/-- Blanks in front of a number do not count. -/
theorem fields_decimalColumn (width n : Nat) (rest : List Char) :
    fields (decimalColumn width n ++ rest) = fields (decimal n ++ rest) := by
  rw [decimalColumn, List.leftpad, List.append_assoc, fields_blanks]

theorem isWhitespace_of_isDigit {c : Char} (h : c.isDigit = true) : c.isWhitespace = false := by
  rw [Bool.eq_false_iff]
  intro hblank
  simp only [Char.isWhitespace, Bool.or_eq_true, decide_eq_true_eq] at hblank
  rcases hblank with ((rfl | rfl) | rfl) | rfl <;> cases h

theorem isField_decimal (n : Nat) : IsField (decimal n) :=
  ⟨Nat.toDigits_ne_nil, fun _ hc => isWhitespace_of_isDigit (isDigit_of_mem_decimal hc)⟩

theorem IsField.append {cs ds : List Char} (h : ∀ c ∈ cs, c.isWhitespace = false) (hds : IsField ds) :
    IsField (cs ++ ds) := by
  refine ⟨by simp [hds.nonempty], fun c hc => ?_⟩
  rcases List.mem_append.1 hc with hc | hc
  · exact h c hc
  · exact hds.solid c hc

theorem isField_hex (n : Nat) : IsField (hex n) := by
  have hblank : ∀ d < 16, (Nat.digitChar d).toUpper.isWhitespace = false := by decide
  have hdigit : ∀ d < 16, IsField [(Nat.digitChar d).toUpper] := fun d hd => ⟨by simp, by simpa using hblank d hd⟩
  exact hex_induction (motive := fun _ cs => IsField cs) hdigit (fun _ d hd ih => .append ih.solid (hdigit d hd)) n

/-- Zeros in front belong to the field. -/
theorem IsField.leftpad {cs : List Char} (h : IsField cs) (width : Nat) : IsField (cs.leftpad width '0') :=
  .append (fun c hc => by rw [List.eq_of_mem_replicate hc]; rfl) h

theorem isField_decimalZeros (width n : Nat) : IsField (decimalZeros width n) := (isField_decimal n).leftpad width

theorem isField_hexZeros (width n : Nat) : IsField (hexZeros width n) := (isField_hex n).leftpad width

theorem IsField.newline_not_mem {cs : List Char} (h : IsField cs) : '\n' ∉ cs := fun hmem => by
  cases h.solid _ hmem

theorem newline_not_mem_decimalColumn (width n : Nat) : '\n' ∉ decimalColumn width n := by
  simp [decimalColumn, List.leftpad, List.mem_replicate, (isField_decimal n).newline_not_mem]

/-! ## Lines of a text -/

/-- Lines, each ended by a newline. -/
def unlines (ls : List String) : String := String.join (ls.map (· ++ "\n"))

/-- The lines of a text, each ended by a newline. -/
def lines (text : String) : List String := (text.toList.splitOn '\n').dropLast.map String.ofList

theorem unlines_cons (l : String) (ls : List String) : unlines (l :: ls) = l ++ "\n" ++ unlines ls := by
  rw [unlines, List.map_cons, String.join_cons, unlines]

/-- **Lines are read back** if none of them holds a newline. -/
theorem lines_unlines {ls : List String} (h : ∀ l ∈ ls, '\n' ∉ l.toList) : lines (unlines ls) = ls := by
  have hsplit : (unlines ls).toList.splitOn '\n' = ls.map String.toList ++ [[]] := by
    induction ls with
    | nil => rfl
    | cons l ls ih =>
      obtain ⟨hl, hls⟩ := List.forall_mem_cons.1 h
      have hfirst : (unlines (l :: ls)).toList = l.toList ++ '\n' :: (unlines ls).toList := by simp [unlines_cons]
      rw [hfirst, List.splitOn_append_cons_self_of_not_mem hl, ih hls]
      rfl
  rw [lines, hsplit, List.dropLast_concat, List.map_map]
  simp [Function.comp_def]

end Chiptune.Text
