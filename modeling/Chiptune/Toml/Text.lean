/-!
# TOML text

What stands between values, and the strings: basic ones in double quotes with escapes, literal ones
in single quotes, and both over several lines in tripled quotes. Each reader takes the characters
that follow and gives what it read with the rest, or nothing if they do not fit.
-/
namespace Chiptune.Toml

/-- Characters of a line: everything but control characters, and the tab. -/
def isPrintable (c : Char) : Bool := c = '\t' || (' ' ≤ c && c ≠ '\x7F')

def isBlank (c : Char) : Bool := c = ' ' || c = '\t'

def skipBlanks (cs : List Char) : List Char := cs.dropWhile isBlank

/-- The rest behind blanks, line ends and comments; `inComment` tells whether a comment is open. A
comment holds no control characters, and a carriage return stands before a line feed only. -/
def skipGap (inComment : Bool) : List Char → Option (List Char)
  | [] => some []
  | '\n' :: rest => skipGap false rest
  | '\r' :: '\n' :: rest => skipGap false rest
  | c :: rest =>
    if inComment then if isPrintable c then skipGap true rest else none
    else if isBlank c then skipGap false rest
    else if c = '#' then skipGap true rest
    else some (c :: rest)

/-- Nothing but blanks and a comment is left of the line. -/
def lineEnd (cs : List Char) : Option (List Char) :=
  match skipBlanks cs with
  | [] => some []
  | '\n' :: rest => some rest
  | '\r' :: '\n' :: rest => some rest
  | '#' :: rest => some ('#' :: rest)
  | _ => none

/-! ## Escapes -/

def hexDigit? (c : Char) : Option Nat :=
  if '0' ≤ c && c ≤ '9' then some (c.toNat - '0'.toNat)
  else if 'a' ≤ c && c ≤ 'f' then some (c.toNat - 'a'.toNat + 10)
  else if 'A' ≤ c && c ≤ 'F' then some (c.toNat - 'A'.toNat + 10)
  else none

/-- The character with this hexadecimal code, if there is one. -/
def scalar? (digits : List Char) : Option Char := do
  let n ← digits.foldlM (fun n c => return 16 * n + (← hexDigit? c)) 0
  if n < 0xD800 ∨ (0xDFFF < n ∧ n < 0x110000) then some (Char.ofNat n) else none

/-- The character that a letter stands for behind a backslash. -/
def escape? (c : Char) : Option Char :=
  match c with
  | 'b' => some '\x08'
  | 't' => some '\t'
  | 'n' => some '\n'
  | 'f' => some '\x0C'
  | 'r' => some '\r'
  | 'e' => some '\x1B'
  | '"' => some '"'
  | '\\' => some '\\'
  | _ => none

/-! ## Strings

The readers start behind the opening quotes; `done` is what was read so far, latest first. -/

def basicText (done : List Char) : List Char → Option (String × List Char)
  | '"' :: rest => some (.ofList done.reverse, rest)
  | '\\' :: 'x' :: a :: b :: rest => do basicText ((← scalar? [a, b]) :: done) rest
  | '\\' :: 'u' :: a :: b :: c :: d :: rest => do
    basicText ((← scalar? [a, b, c, d]) :: done) rest
  | '\\' :: 'U' :: a :: b :: c :: d :: e :: f :: g :: h :: rest => do
    basicText ((← scalar? [a, b, c, d, e, f, g, h]) :: done) rest
  | '\\' :: c :: rest => do basicText ((← escape? c) :: done) rest
  | c :: rest => if isPrintable c then basicText (c :: done) rest else none
  | [] => none

def literalText (done : List Char) : List Char → Option (String × List Char)
  | '\'' :: rest => some (.ofList done.reverse, rest)
  | c :: rest => if isPrintable c then literalText (c :: done) rest else none
  | [] => none

/-- Blanks and line ends behind a backslash at the end of a line. -/
inductive Fold where
  /-- None is being left out. -/
  | off
  /-- The line has to end first. -/
  | line
  /-- All of them are left out. -/
  | all

/-- A basic string over several lines. Up to two quotes may stand directly before the closing ones. -/
def basicLines (fold : Fold) (done : List Char) : List Char → Option (String × List Char)
  | '\n' :: rest =>
    match fold with
    | .off => basicLines .off ('\n' :: done) rest
    | .line | .all => basicLines .all done rest
  | '\r' :: '\n' :: rest =>
    match fold with
    | .off => basicLines .off ('\n' :: done) rest
    | .line | .all => basicLines .all done rest
  | ' ' :: rest =>
    match fold with
    | .off => basicLines .off (' ' :: done) rest
    | .line => basicLines .line done rest
    | .all => basicLines .all done rest
  | '\t' :: rest =>
    match fold with
    | .off => basicLines .off ('\t' :: done) rest
    | .line => basicLines .line done rest
    | .all => basicLines .all done rest
  | c :: rest =>
    match fold with
    | .line => none
    | .off | .all =>
      match c, rest with
      | '"', '"' :: '"' :: '"' :: '"' :: rest => some (.ofList ('"' :: '"' :: done).reverse, rest)
      | '"', '"' :: '"' :: '"' :: rest => some (.ofList ('"' :: done).reverse, rest)
      | '"', '"' :: '"' :: rest => some (.ofList done.reverse, rest)
      | '\\', 'x' :: a :: b :: rest => do basicLines .off ((← scalar? [a, b]) :: done) rest
      | '\\', 'u' :: a :: b :: c :: d :: rest => do
        basicLines .off ((← scalar? [a, b, c, d]) :: done) rest
      | '\\', 'U' :: a :: b :: c :: d :: e :: f :: g :: h :: rest => do
        basicLines .off ((← scalar? [a, b, c, d, e, f, g, h]) :: done) rest
      | '\\', '\r' :: '\n' :: rest => basicLines .all done rest
      | '\\', e :: rest =>
        if e = '\n' then basicLines .all done rest
        else if isBlank e then basicLines .line done rest
        else do basicLines .off ((← escape? e) :: done) rest
      | '\\', [] => none
      | c, rest => if isPrintable c then basicLines .off (c :: done) rest else none
  | [] => none

/-- A literal string over several lines. Up to two quotes may stand directly before the closing
ones. -/
def literalLines (done : List Char) : List Char → Option (String × List Char)
  | '\'' :: '\'' :: '\'' :: '\'' :: '\'' :: rest =>
    some (.ofList ('\'' :: '\'' :: done).reverse, rest)
  | '\'' :: '\'' :: '\'' :: '\'' :: rest => some (.ofList ('\'' :: done).reverse, rest)
  | '\'' :: '\'' :: '\'' :: rest => some (.ofList done.reverse, rest)
  | '\n' :: rest => literalLines ('\n' :: done) rest
  | '\r' :: '\n' :: rest => literalLines ('\n' :: done) rest
  | c :: rest => if isPrintable c then literalLines (c :: done) rest else none
  | [] => none

/-- A line end directly behind the opening quotes is left out. -/
def trimFirst : List Char → List Char
  | '\n' :: rest => rest
  | '\r' :: '\n' :: rest => rest
  | cs => cs

end Chiptune.Toml
