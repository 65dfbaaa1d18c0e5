import Enumerant.Header.Expression
import Enumerant.Header.Fault
import Enumerant.Schema

/-!
# Initializers of enumerators

An initializer is the run of tokens up to the first comma or closing brace outside parentheses. A
lone identifier refers to another member, a constant expression has a value, and all else is kept as
text.
-/

namespace Enumerant.Header

open Text

/-! ### Moving through tokens -/

/-- Tokens with the comments in front passed over. -/
def dropRemarks : List Token → List Token
  | [] => []
  | t :: ts =>
    match t.lexeme with
    | .remark _ => dropRemarks ts
    | _ => t :: ts

/-- The next token that is no comment, and what follows it. -/
def next? (ts : List Token) : Option (Token × List Token) :=
  match dropRemarks ts with
  | [] => none
  | t :: rest => some (t, rest)

/-- Whether the next token that is no comment is the given punctuation. -/
def nextIs (p : Punctuation) (ts : List Token) : Bool :=
  match next? ts with
  | some (t, _) => t.lexeme = .mark p
  | none => false

/-- The identifier that comes next, and what follows it. -/
def word? (ts : List Token) : Option (String × List Token) :=
  match next? ts with
  | some (⟨.word name, _, _, _, _⟩, rest) => some (name, rest)
  | _ => none

/-- The line on which a list of tokens begins; `last` is the line of the last token of all. -/
def lineOf (last : Nat) : List Token → Nat
  | [] => last
  | t :: _ => t.line

theorem length_dropRemarks_le (ts : List Token) : (dropRemarks ts).length ≤ ts.length := by
  induction ts with
  | nil => exact Nat.le_refl 0
  | cons t ts ih =>
    unfold dropRemarks
    split
    · exact Nat.le_succ_of_le ih
    · exact Nat.le_refl _

theorem length_lt_of_next? {ts rest : List Token} {t : Token} (h : next? ts = some (t, rest)) :
    rest.length < ts.length := by
  have := length_dropRemarks_le ts
  unfold next? at h
  split at h
  · exact nomatch h
  · rename_i heq
    cases h
    rw [heq] at this
    exact this

/-! ### Initializers -/

/-- The number of open parentheses after one more token. -/
def depthAfter (lexeme : Lexeme) (depth : Nat) : Nat :=
  match lexeme with
  | .mark .openParen => depth + 1
  | .mark .closeParen => depth - 1
  | _ => depth

/-- The tokens of an initializer without its comments, and what follows it. `depth` counts the
parentheses that are open. -/
def initializerTokens (last depth : Nat) (ts : List Token) :
    Except Fault (List Token × List Token) :=
  match _h : next? ts with
  | none => .error ⟨lineOf last ts, .unterminatedInitializer⟩
  | some (t, rest) =>
    if (t.lexeme = .mark .comma ∨ t.lexeme = .mark .closeBrace) ∧ depth = 0 then .ok ([], ts)
    else if t.lexeme = .mark .semicolon ∨ t.lexeme = .mark .openBrace then
      .error ⟨lineOf last ts, .unexpectedInInitializer⟩
    else
      match initializerTokens last (depthAfter t.lexeme depth) rest with
      | .ok (expr, rest) => .ok (t :: expr, rest)
      | .error fault => .error fault
termination_by ts.length
decreasing_by exact length_lt_of_next? _h

theorem length_le_of_initializerTokens {last depth : Nat} {ts expr rest : List Token}
    (h : initializerTokens last depth ts = .ok (expr, rest)) : rest.length ≤ ts.length := by
  fun_induction initializerTokens last depth ts generalizing expr rest with
  | case1 => exact nomatch h
  | case2 => cases h; exact Nat.le_refl _
  | case3 => exact nomatch h
  | case4 _ _ _ _ hnext _ _ _ _ heq ih =>
    cases h
    exact Nat.le_trans (ih heq) (Nat.le_of_lt (length_lt_of_next? hnext))
  | case5 => exact nomatch h

/-- The text of a header from one token to another. There is none if the tokens are not in order,
or if it begins or ends within a character. -/
def textBetween? (first last : Token) : Option (List Char) :=
  if first.start ≤ last.stop ∧ last.stop - first.start ≤ first.onward.length then
    decode? (first.onward.take (last.stop - first.start))
  else none

/-- The text of a header from one token to another, with single spaces. -/
def sourceText (first last : Token) : String :=
  String.ofList (collapsed ((textBetween? first last).getD []))

/-- What the tokens of an initializer say. -/
def classify (first : Token) (more : List Token) : Initializer :=
  let text := sourceText first (more.getLastD first)
  match first.lexeme, more with
  | .word name, [] => .reference name
  | _, _ =>
    match constant? ((first :: more).map Token.lexeme) with
    | some value => .literal value text
    | none => .unevaluated text

/-- The initializer after an equals sign, and what follows it. -/
def initializer (last : Nat) (ts : List Token) :
    Except Fault (Initializer × List Token) :=
  match initializerTokens last 0 ts with
  | .ok ([], rest) => .error ⟨lineOf last rest, .emptyInitializer⟩
  | .ok (first :: more, rest) => .ok (classify first more, rest)
  | .error fault => .error fault

theorem length_le_of_initializer {last : Nat} {ts rest : List Token}
    {value : Initializer} (h : initializer last ts = .ok (value, rest)) :
    rest.length ≤ ts.length := by
  unfold initializer at h
  split at h
  · exact nomatch h
  · rename_i heq
    cases h
    exact length_le_of_initializerTokens heq
  · exact nomatch h

end Enumerant.Header
