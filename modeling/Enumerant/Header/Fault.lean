import Enumerant.Header.Token

/-!
# Faults of headers

Why a header cannot be read, with the line on which reading stopped.
-/

namespace Enumerant.Header

/-- What is wrong with a header. -/
inductive Cause where
  | unbalancedBrace
  | unclosedBrace
  | unterminatedBody
  | unexpectedInBody (lexeme : Lexeme)
  | missingSeparator (member : String)
  | unterminatedInitializer
  | unexpectedInInitializer
  | emptyInitializer
  deriving DecidableEq, Repr

/-- What is wrong with a header, and where. -/
structure Fault where
  line : Nat
  cause : Cause
  deriving DecidableEq, Repr

/-- The name of a punctuation in messages. -/
def Punctuation.label : Punctuation → String
  | openBrace => "LBrace"
  | closeBrace => "RBrace"
  | openParen => "LParen"
  | closeParen => "RParen"
  | semicolon => "Semi"
  | comma => "Comma"
  | colon => "Colon"
  | assign => "Assign"
  | plus => "Plus"
  | minus => "Minus"
  | star => "Star"
  | slash => "Slash"
  | percent => "Percent"
  | tilde => "Tilde"
  | bar => "Pipe"
  | ampersand => "Amp"
  | caret => "Caret"
  | shiftLeft => "Shl"
  | shiftRight => "Shr"

/-- A lexeme as messages show it. -/
def Lexeme.label : Lexeme → String
  | word name => "Ident(\"" ++ name ++ "\")"
  | integer value => "Int(" ++ toString value ++ ")"
  | remark text => "LineComment(\"" ++ text ++ "\")"
  | mark p => p.label
  | stray byte => "Other(" ++ toString byte.toNat ++ ")"

/-- The wording of a cause. -/
def Cause.message : Cause → String
  | unbalancedBrace => "unbalanced `\x7d`"
  | unclosedBrace => "unexpected end of input: unclosed `\x7b`"
  | unterminatedBody => "unterminated enum body"
  | unexpectedInBody lexeme => "unexpected token " ++ lexeme.label ++ " in enum body"
  | missingSeparator member => "expected `,` or `\x7d` after enumerator " ++ member
  | unterminatedInitializer => "unterminated enumerator initializer"
  | unexpectedInInitializer => "unexpected token in enumerator initializer"
  | emptyInitializer => "empty enumerator initializer"

/-- The wording of a fault. -/
def Fault.message (f : Fault) : String :=
  "line " ++ toString f.line ++ ": " ++ f.cause.message

end Enumerant.Header
