import Enumerant.Integer.Literal
import Enumerant.Text.Blank
import Enumerant.Text.Offset

/-!
# Tokens of C headers

A header is read byte by byte, with a cursor that counts bytes and lines. Blanks, directives, block
comments and quoted texts are skipped, while the text of a line comment is kept, for it may describe
a member. The bytes of a character beyond ASCII are tokens of their own where nothing skips them.

The cursor moves in two ways: `Cursor.bump` takes one byte and notices when a line ends, and
`Cursor.advance` only counts bytes.
-/

namespace Enumerant.Header

open Text

/-! ### Kinds of tokens -/

/-- The punctuation that declarations and constant expressions are made of. -/
inductive Punctuation where
  | openBrace
  | closeBrace
  | openParen
  | closeParen
  | semicolon
  | comma
  | colon
  | assign
  | plus
  | minus
  | star
  | slash
  | percent
  | tilde
  | bar
  | ampersand
  | caret
  | shiftLeft
  | shiftRight
  deriving DecidableEq, Repr

/-- The punctuation of one character. -/
def Punctuation.ofChar? : Char → Option Punctuation
  | '{' => some .openBrace
  | '}' => some .closeBrace
  | '(' => some .openParen
  | ')' => some .closeParen
  | ';' => some .semicolon
  | ',' => some .comma
  | ':' => some .colon
  | '=' => some .assign
  | '+' => some .plus
  | '-' => some .minus
  | '*' => some .star
  | '/' => some .slash
  | '%' => some .percent
  | '~' => some .tilde
  | '|' => some .bar
  | '&' => some .ampersand
  | '^' => some .caret
  | _ => none

/-- What a token is. -/
inductive Lexeme where
  /-- A keyword or an identifier. -/
  | word (name : String)
  /-- An integer literal. -/
  | integer (value : Int)
  /-- A line comment, without the blanks around its text. -/
  | remark (text : String)
  | mark (p : Punctuation)
  /-- A byte with no meaning in declarations; a number that is no integer literal counts as one. -/
  | stray (byte : UInt8)
  deriving DecidableEq, Repr

/-- A token with its line, counted from one, and its byte range. -/
structure Token where
  lexeme : Lexeme
  line : Nat
  start : Nat
  stop : Nat
  /-- The bytes of the header from the first one of the token on. -/
  onward : List UInt8
  deriving DecidableEq, Repr

/-! ### Characters -/

/-- A character that may begin an identifier. -/
def isWordStart (c : Char) : Bool :=
  c.isAlpha || c = '_'

/-- A character that may continue an identifier. -/
def isWordChar (c : Char) : Bool :=
  c.isAlphanum || c = '_'

/-- A character that only divides tokens. -/
def isSpace (c : Char) : Bool :=
  c = ' ' || c = '\t' || c = '\n' || c = '\r' || c = '\x0c'

/-- The lexeme of a text that starts with a digit. -/
def numberLexeme (text : List Char) : Lexeme :=
  match Literal.parse? text with
  | some v => .integer v
  | none => .stray 48

/-! ### The cursor -/

/-- Where the reading of a header stands. -/
structure Cursor where
  /-- The bytes of the header that are still to be read. -/
  rest : List UInt8
  /-- The number of bytes in front. -/
  pos : Nat := 0
  /-- The line, counted from one. -/
  line : Nat := 1
  /-- Whether the line has held nothing but blanks so far. -/
  fresh : Bool := true
  deriving DecidableEq, Repr

namespace Cursor

variable {c : Cursor} {ch : Char}

/-- The byte at a distance behind the cursor, as the character with its number. -/
def peekAt (n : Nat) (c : Cursor) : Option Char :=
  c.rest[n]?.map Char.ofUInt8

/-- The byte at the cursor, as the character with its number. -/
def peek (c : Cursor) : Option Char :=
  c.peekAt 0

/-- The cursor behind one byte. A new line begins behind a line break. -/
def bump (c : Cursor) : Cursor :=
  match c.rest with
  | [] => c
  | b :: bs =>
    if b = 10 then ⟨bs, c.pos + 1, c.line + 1, true⟩ else ⟨bs, c.pos + 1, c.line, c.fresh⟩

/-- The cursor behind some bytes, on the same line. -/
def advance (n : Nat) (c : Cursor) : Cursor :=
  { c with rest := c.rest.drop n, pos := c.pos + n }

theorem length_rest_bump (c : Cursor) : c.bump.rest.length = c.rest.length - 1 := by
  rw [bump]
  split
  · rename_i h
    rw [h, List.length_nil]
  · rename_i b bs h
    rw [h, List.length_cons]
    split <;> rfl

theorem length_rest_advance (n : Nat) (c : Cursor) :
    (c.advance n).rest.length = c.rest.length - n :=
  List.length_drop

theorem length_rest_pos (h : c.peek = some ch) : 0 < c.rest.length := by
  obtain ⟨b, hb, -⟩ := Option.map_eq_some_iff.mp h
  exact (List.getElem?_eq_some_iff.mp hb).1

theorem length_rest_bump_lt (h : c.peek = some ch) : c.bump.rest.length < c.rest.length := by
  have hpos := length_rest_pos h
  rw [length_rest_bump]
  omega

/-! ### What is skipped -/

/-- The cursor behind all blanks. -/
def skipBlanks (c : Cursor) : Cursor :=
  match _h : c.peek with
  | some ch => if isSpace ch then c.bump.skipBlanks else c
  | none => c
termination_by c.rest.length
decreasing_by exact length_rest_bump_lt _h

theorem skipBlanks_of_peek (h : c.peek = some ch) :
    c.skipBlanks = if isSpace ch then c.bump.skipBlanks else c := by
  rw [skipBlanks]
  grind

/-- The cursor behind a directive: at the first line break that no backslash precedes. -/
def skipDirective (c : Cursor) : Cursor :=
  match _h : c.peek with
  | some ch =>
    if ch = '\\' ∧ c.peekAt 1 = some '\n' then c.bump.bump.skipDirective
    else if ch = '\n' then c
    else c.bump.skipDirective
  | none => c
termination_by c.rest.length
decreasing_by
  · have := length_rest_bump_lt _h
    rw [length_rest_bump]
    omega
  · exact length_rest_bump_lt _h

theorem skipDirective_of_peek (h : c.peek = some ch) :
    c.skipDirective =
      if ch = '\\' ∧ c.peekAt 1 = some '\n' then c.bump.bump.skipDirective
      else if ch = '\n' then c
      else c.bump.skipDirective := by
  rw [skipDirective]
  grind

/-- The cursor behind the closing of a block comment. -/
def closeComment (c : Cursor) : Cursor :=
  match _h : c.peek with
  | some ch =>
    if ch = '*' ∧ c.bump.peek = some '/' then c.bump.advance 1 else c.bump.closeComment
  | none => c
termination_by c.rest.length
decreasing_by exact length_rest_bump_lt _h

theorem closeComment_of_peek (h : c.peek = some ch) :
    c.closeComment =
      if ch = '*' ∧ c.bump.peek = some '/' then c.bump.advance 1 else c.bump.closeComment := by
  rw [closeComment]
  grind

/-- The cursor behind a block comment. -/
def skipComment (c : Cursor) : Cursor :=
  (c.advance 2).closeComment

/-- The cursor behind the closing quote of a text. A backslash takes the next byte along; a line
break ends the text as the quote does. -/
def closeQuoted (quote : Char) (c : Cursor) : Cursor :=
  match _h : c.peek with
  | some ch =>
    if ch = '\\' then c.bump.bump.closeQuoted quote
    else if ch = quote ∨ ch = '\n' then c.bump
    else c.bump.closeQuoted quote
  | none => c
termination_by c.rest.length
decreasing_by
  · have := length_rest_bump_lt _h
    rw [length_rest_bump]
    omega
  · exact length_rest_bump_lt _h

theorem closeQuoted_of_peek (quote : Char) (h : c.peek = some ch) :
    c.closeQuoted quote =
      if ch = '\\' then c.bump.bump.closeQuoted quote
      else if ch = quote ∨ ch = '\n' then c.bump
      else c.bump.closeQuoted quote := by
  rw [closeQuoted]
  grind

/-- The cursor behind a quoted text. -/
def skipQuoted (quote : Char) (c : Cursor) : Cursor :=
  c.bump.closeQuoted quote

/-! ### What is read -/

/-- The cursor behind all bytes in front of the first one that is not of a kind. -/
def passWhile (p : Char → Bool) (c : Cursor) : Cursor :=
  match _h : c.peek with
  | some ch => if p ch then (c.advance 1).passWhile p else c
  | none => c
termination_by c.rest.length
decreasing_by
  have := length_rest_pos _h
  rw [length_rest_advance]
  omega

theorem passWhile_of_peek (p : Char → Bool) (h : c.peek = some ch) :
    c.passWhile p = if p ch then (c.advance 1).passWhile p else c := by
  rw [passWhile]
  grind

/-- The text from one cursor to another. There is none if the bytes are no UTF-8. -/
def textTo (c stop : Cursor) : List Char :=
  (decode? (c.rest.take (stop.pos - c.pos))).getD []

/-- What stands at a cursor, of which the character is given and no blank, and the cursor behind it.
Comments and quoted texts are nothing. -/
def lexeme? (ch : Char) (c : Cursor) : Option Lexeme × Cursor :=
  if ch = '/' ∧ c.peekAt 1 = some '/' then
    let stop := (c.advance 2).passWhile (· != '\n')
    (some (.remark (String.ofList (trim ((c.advance 2).textTo stop)))), stop)
  else if ch = '/' ∧ c.peekAt 1 = some '*' then (none, c.skipComment)
  else if ch.toNat = 0x22 ∨ ch.toNat = 0x27 then (none, c.skipQuoted ch)
  else if ch.isDigit then
    let stop := c.passWhile Char.isAlphanum
    (some (numberLexeme (c.textTo stop)), stop)
  else if isWordStart ch then
    let stop := c.passWhile isWordChar
    (some (.word (String.ofList (c.textTo stop))), stop)
  else if ch = '<' ∧ c.peekAt 1 = some '<' then (some (.mark .shiftLeft), c.advance 2)
  else if ch = '>' ∧ c.peekAt 1 = some '>' then (some (.mark .shiftRight), c.advance 2)
  else
    match Punctuation.ofChar? ch with
    | some p => (some (.mark p), c.bump)
    | none => (some (.stray ch.toUInt8), c.bump)

theorem length_skipBlanks_le (c : Cursor) : c.skipBlanks.rest.length ≤ c.rest.length := by
  fun_induction skipBlanks c <;> grind [length_rest_bump]

theorem length_skipDirective_le (c : Cursor) : c.skipDirective.rest.length ≤ c.rest.length := by
  fun_induction skipDirective c <;> grind [length_rest_bump]

theorem length_closeComment_le (c : Cursor) : c.closeComment.rest.length ≤ c.rest.length := by
  fun_induction closeComment c <;> grind [length_rest_bump, length_rest_advance]

theorem length_closeQuoted_le (quote : Char) (c : Cursor) :
    (c.closeQuoted quote).rest.length ≤ c.rest.length := by
  fun_induction closeQuoted quote c <;> grind [length_rest_bump]

theorem length_passWhile_le (p : Char → Bool) (c : Cursor) :
    (c.passWhile p).rest.length ≤ c.rest.length := by
  fun_induction passWhile p c <;> grind [length_rest_advance]

theorem length_passWhile_lt {p : Char → Bool} (h : c.peek = some ch) (hp : p ch) :
    (c.passWhile p).rest.length < c.rest.length := by
  have hle := length_passWhile_le p (c.advance 1)
  have hpos := length_rest_pos h
  rw [length_rest_advance] at hle
  rw [passWhile_of_peek p h, if_pos hp]
  omega

/-- A directive takes at least its first character. -/
theorem length_skipDirective_lt (h : c.peek = some '#') :
    c.skipDirective.rest.length < c.rest.length := by
  rw [skipDirective_of_peek h, if_neg (by simp), if_neg (by decide)]
  exact Nat.lt_of_le_of_lt (length_skipDirective_le c.bump) (length_rest_bump_lt h)

/-- Whatever stands at a cursor takes at least one byte. -/
theorem length_lexeme?_lt (h : c.peek = some ch) :
    (c.lexeme? ch).2.rest.length < c.rest.length := by
  have hbump := length_rest_bump_lt h
  have hadvance : (c.advance 2).rest.length < c.rest.length := by
    have hpos := length_rest_pos h
    rw [length_rest_advance]
    omega
  -- Each branch moves on by a byte at least before it looks for an end.
  unfold lexeme?
  split
  · exact Nat.lt_of_le_of_lt (length_passWhile_le _ _) hadvance
  split
  · exact Nat.lt_of_le_of_lt (length_closeComment_le _) hadvance
  split
  · exact Nat.lt_of_le_of_lt (length_closeQuoted_le ch _) hbump
  split
  · rename_i hdigit
    exact length_passWhile_lt h (by simp [Char.isAlphanum, hdigit])
  split
  · rename_i hword
    refine length_passWhile_lt h ?_
    simp only [isWordStart, isWordChar, Char.isAlphanum, Bool.or_eq_true] at hword ⊢
    exact hword.imp_left .inl
  split
  · exact hadvance
  split
  · exact hadvance
  split <;> exact hbump

/-! ### Tokens -/

/-- The token behind the blanks at a cursor, if there is one, and the cursor behind what stands
there; nothing at the end of the header. A `#` opens a directive only if the line has held nothing
but blanks so far. -/
def step? (c : Cursor) : Option (Option Token × Cursor) :=
  let start := c.skipBlanks
  start.peek.map fun ch =>
    if ch = '#' ∧ start.fresh then (none, start.skipDirective)
    else
      let (lexeme, stop) := { start with fresh := false }.lexeme? ch
      (lexeme.map fun l => ⟨l, start.line, start.pos, stop.pos, start.rest⟩, stop)

theorem length_step?_lt {stop : Cursor} {t : Option Token} (h : c.step? = some (t, stop)) :
    stop.rest.length < c.rest.length := by
  obtain ⟨ch, hch, heq⟩ := Option.map_eq_some_iff.mp h
  refine Nat.lt_of_lt_of_le ?_ (length_skipBlanks_le c)
  split at heq
  · rename_i hhash
    cases heq
    exact length_skipDirective_lt (hhash.1 ▸ hch)
  · cases heq
    exact length_lexeme?_lt (c := { c.skipBlanks with fresh := false }) hch

/-- The tokens from a cursor on. -/
def tokenize (c : Cursor) : List Token :=
  match _h : c.step? with
  | some (t, stop) => t.toList ++ stop.tokenize
  | none => []
termination_by c.rest.length
decreasing_by exact length_step?_lt _h

end Cursor

/-- The tokens of a header. -/
def tokens (text : List Char) : List Token :=
  ({ rest := text.flatMap String.utf8EncodeChar } : Cursor).tokenize

end Enumerant.Header
