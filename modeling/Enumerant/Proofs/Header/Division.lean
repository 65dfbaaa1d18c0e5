import Enumerant.Header.Token

/-!
# The pieces of a header

Seen as characters, a header is divided into pieces that cover it without gap: blanks, directives,
block comments, quoted texts, tokens, and characters without a meaning. How long a piece is depends
on what follows its first character, and whether a `#` begins a directive on what precedes it on the
line. The tokens of the pieces are placed by adding up: one starts after all the pieces before it.

The lexer itself counts and skips single bytes; `tokens_eq_located` says that it comes to the same.
-/

namespace Enumerant.Header

open Text

/-! ### Extents -/

/-- The number of characters of a directive after its `#`: up to the first line break that no
backslash precedes. -/
def directiveExtent : List Char → Nat
  | '\\' :: '\n' :: cs => directiveExtent cs + 2
  | c :: cs => if c = '\n' then 0 else directiveExtent cs + 1
  | [] => 0

/-- The number of characters of a block comment after its opening, its closing included. -/
def commentExtent : List Char → Nat
  | '*' :: '/' :: _ => 2
  | _ :: cs => commentExtent cs + 1
  | [] => 0

/-- The number of characters of a quoted text after its opening quote. A backslash takes the next
character along; a line break ends the text as the quote does. -/
def quotedExtent (quote : Char) : List Char → Nat
  | '\\' :: _ :: cs => quotedExtent quote cs + 2
  | c :: cs => if c = quote ∨ c = '\n' then 1 else quotedExtent quote cs + 1
  | [] => 0

/-! ### Pieces -/

/-- What a piece of a header is. -/
inductive Piece.Kind where
  | blank
  | directive
  | comment
  | quoted
  | token (lexeme : Lexeme)
  /-- A character with no meaning in declarations, which counts byte by byte. -/
  | strays
  deriving DecidableEq, Repr

/-- A piece of a header with its text. -/
structure Piece where
  kind : Piece.Kind
  text : List Char
  deriving DecidableEq, Repr

/-- What the text at a character is, and how many characters after it belong to it. A `#` opens a
directive only if the line has held nothing but blanks so far. -/
def Piece.classify (fresh : Bool) (c : Char) (cs : List Char) : Piece.Kind × Nat :=
  if isSpace c then (.blank, 0)
  else if c = '#' ∧ fresh then (.directive, directiveExtent cs)
  else if c = '/' ∧ cs.head? = some '/' then
    let text := cs.tail.takeWhile (· != '\n')
    (.token (.remark (String.ofList (trim text))), text.length + 1)
  else if c = '/' ∧ cs.head? = some '*' then (.comment, commentExtent cs.tail + 1)
  else if c.toNat = 0x22 ∨ c.toNat = 0x27 then (.quoted, quotedExtent c cs)
  else if c.isDigit then
    let more := cs.takeWhile Char.isAlphanum
    (.token (numberLexeme (c :: more)), more.length)
  else if isWordStart c then
    let more := cs.takeWhile isWordChar
    (.token (.word (String.ofList (c :: more))), more.length)
  else if c = '<' ∧ cs.head? = some '<' then (.token (.mark .shiftLeft), 1)
  else if c = '>' ∧ cs.head? = some '>' then (.token (.mark .shiftRight), 1)
  else
    match Punctuation.ofChar? c with
    | some p => (.token (.mark p), 0)
    | none => (.strays, 0)

/-- Whether the line holds nothing but blanks and directives after a piece, if it did before. -/
def Piece.leavesFresh (p : Piece) (fresh : Bool) : Bool :=
  p.text.contains '\n' || (fresh && (p.kind = .blank || p.kind = .directive))

/-- The pieces of a text. -/
def Piece.split (fresh : Bool) : List Char → List Piece
  | [] => []
  | c :: cs =>
    let (kind, more) := Piece.classify fresh c cs
    let piece : Piece := ⟨kind, c :: cs.take more⟩
    piece :: Piece.split (piece.leavesFresh fresh) (cs.drop more)
termination_by cs => cs.length
decreasing_by simp only [List.length_drop, List.length_cons]; omega

/-- The pieces put together are the text. -/
theorem Piece.flatMap_text_split (fresh : Bool) (cs : List Char) :
    (Piece.split fresh cs).flatMap (·.text) = cs := by
  fun_induction Piece.split fresh cs with
  | case1 => rfl
  | case2 fresh c cs kind more h piece ih => simp [piece, ih]

/-! ### Tokens of pieces -/

/-- The tokens that a piece gives at a position, in front of the bytes that start with the piece. -/
def Piece.tokens (p : Piece) (offset line : Nat) (onward : List UInt8) : List Token :=
  match p.kind with
  | .token lexeme => [⟨lexeme, line, offset, offset + byteLength p.text, onward⟩]
  | .strays =>
    (p.text.flatMap String.utf8EncodeChar).mapIdx fun i b =>
      ⟨.stray b, line, offset + i, offset + i + 1, onward.drop i⟩
  | _ => []

/-- The tokens of pieces at a position in front of a text. -/
def located (offset line : Nat) (behind : List Char) : List Piece → List Token
  | [] => []
  | p :: ps =>
    p.tokens offset line (((p :: ps).flatMap Piece.text ++ behind).flatMap String.utf8EncodeChar)
      ++ located (offset + byteLength p.text) (line + p.text.count '\n') behind ps

end Enumerant.Header
