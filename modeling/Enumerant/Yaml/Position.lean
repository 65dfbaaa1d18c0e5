/-!
# Positions in a YAML text

Indentation is meaning in YAML, so reading keeps track of the column. Line breaks are brought to
line feeds first, save for the two separators of Unicode, which are breaks of their own.
-/

namespace Enumerant.Yaml

/-- A place in a text: its line, and how far it is from the start of the line, in characters and in
bytes. -/
structure Position where
  line : Nat := 0
  column : Nat := 0
  offset : Nat := 0
  deriving DecidableEq, Repr

/-- The position behind a character that is no line break. -/
def Position.next (p : Position) (c : Char) : Position :=
  { p with column := p.column + 1, offset := p.offset + c.utf8Size }

/-- The position behind a text on one line. -/
def Position.past (p : Position) (cs : List Char) : Position :=
  cs.foldl Position.next p

/-- The position behind a line break. -/
def Position.nextLine (p : Position) : Position :=
  { line := p.line + 1 }

/-- Whether a character ends a line. -/
def isBreak (c : Char) : Bool :=
  c = '\n' || c.toNat == 0x2028 || c.toNat == 0x2029

/-- Whether a character is a space or a tab. -/
def isSpace (c : Char) : Bool :=
  c = ' ' || c = '\t'

/-- Whether nothing, a space or a line break comes first. -/
def startsBlank : List Char → Bool
  | [] => true
  | c :: _ => isSpace c || isBreak c

/-- Whether a text starts with three of a character and then nothing or a blank. -/
def startsWithThree (mark : Char) : List Char → Bool
  | a :: b :: c :: rest => a = mark && b = mark && c = mark && startsBlank rest
  | _ => false

/-- Whether a text at the start of a line starts with a mark that bounds documents. -/
def startsWithMark (cs : List Char) : Bool :=
  startsWithThree '-' cs || startsWithThree '.' cs

/-! ### Characters -/

/-- The character that may stand in front of a text to tell how it is encoded. -/
def isByteOrderMark (c : Char) : Bool :=
  c.toNat == 0xfeff

/-- Whether a character may stand in a YAML text at all. -/
def isPrintable (c : Char) : Bool :=
  let n := c.toNat
  n == 9 || n == 10 || n == 13 || (0x20 ≤ n && n ≤ 0x7e) || n == 0x85 ||
    (0xa0 ≤ n && n ≤ 0xfffd) || 0x10000 ≤ n

/-- A text whose line breaks are line feeds. -/
def withLineFeeds : List Char → List Char
  | '\r' :: '\n' :: cs => '\n' :: withLineFeeds cs
  | c :: cs => (if c = '\r' ∨ c.toNat = 0x85 then '\n' else c) :: withLineFeeds cs
  | [] => []

end Enumerant.Yaml
