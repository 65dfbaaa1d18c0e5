import Enumerant.Header.Token

/-!
# Constant expressions

Integer constant expressions as C writes them: literals, parentheses, the prefix signs `-`, `+` and
`~`, and the left-associative operators in six levels of precedence. Values are those of 128 bits in
two's complement; an operation has no value where the exact result does not fit, a divisor is zero
or a shift count is not below 128.
-/

namespace Enumerant.Header

/-! ### Operators -/

/-- The operators between two operands. -/
inductive Operator where
  | mul
  | div
  | rem
  | add
  | sub
  | shiftLeft
  | shiftRight
  | and
  | xor
  | or
  deriving DecidableEq, Repr

namespace Operator

/-- How tightly an operator binds: a higher level binds tighter. -/
def level : Operator → Nat
  | mul | div | rem => 5
  | add | sub => 4
  | shiftLeft | shiftRight => 3
  | and => 2
  | xor => 1
  | or => 0

/-- The punctuation of an operator. -/
def mark : Operator → Punctuation
  | mul => .star
  | div => .slash
  | rem => .percent
  | add => .plus
  | sub => .minus
  | shiftLeft => .shiftLeft
  | shiftRight => .shiftRight
  | and => .ampersand
  | xor => .caret
  | or => .bar

/-- The operator that a token stands for between two operands. -/
def ofLexeme? : Lexeme → Option Operator
  | .mark .star => some mul
  | .mark .slash => some div
  | .mark .percent => some rem
  | .mark .plus => some add
  | .mark .minus => some sub
  | .mark .shiftLeft => some shiftLeft
  | .mark .shiftRight => some shiftRight
  | .mark .ampersand => some and
  | .mark .caret => some xor
  | .mark .bar => some or
  | _ => none

/-- A value from its 128 bits. -/
def ofBits (b : BitVec 128) : Int :=
  b.toInt

/-- The 128 bits of a value. -/
def toBits (v : Int) : BitVec 128 :=
  BitVec.ofInt 128 v

/-- The result of an operator, if it has one. Division and remainder go toward zero; a shift to the
left loses the bits beyond 128, and one to the right repeats the sign. -/
def apply (op : Operator) (a b : Int) : Option Int :=
  match op with
  | mul => checked (a * b)
  | div => if b = 0 then none else checked (a.tdiv b)
  | rem => if b = 0 then none else (checked (a.tdiv b)).map fun _ => a.tmod b
  | add => checked (a + b)
  | sub => checked (a - b)
  | shiftLeft =>
    if 0 ≤ b ∧ b < 128 then some (ofBits (toBits a <<< b.toNat)) else none
  | shiftRight =>
    if 0 ≤ b ∧ b < 128 then some (ofBits ((toBits a).sshiftRight b.toNat)) else none
  | and => some (ofBits (toBits a &&& toBits b))
  | xor => some (ofBits (toBits a ^^^ toBits b))
  | or => some (ofBits (toBits a ||| toBits b))

end Operator

/-- The signs that stand before an operand. -/
inductive Sign where
  | plus
  | minus
  | complement
  deriving DecidableEq, Repr

namespace Sign

/-- The punctuation of a sign. -/
def mark : Sign → Punctuation
  | plus => .plus
  | minus => .minus
  | complement => .tilde

/-- The sign that a token stands for before an operand. -/
def ofLexeme? : Lexeme → Option Sign
  | .mark .plus => some plus
  | .mark .minus => some minus
  | .mark .tilde => some complement
  | _ => none

/-- The result of a sign, if it has one. -/
def apply (s : Sign) (v : Int) : Option Int :=
  match s with
  | plus => some v
  | minus => checked (-v)
  | complement => some (-v - 1)

end Sign

/-! ### Expressions and their values -/

/-- An expression without its parentheses. -/
inductive Expression where
  | number (value : Int)
  | signed (sign : Sign) (operand : Expression)
  | binary (op : Operator) (left right : Expression)
  deriving DecidableEq, Repr

/-- The value of an expression, if every operation in it has one. -/
def Expression.value? : Expression → Option Int
  | number v => some v
  | signed s e => e.value?.bind s.apply
  | binary op l r => l.value?.bind fun a => r.value?.bind fun b => op.apply a b

/-! ### Reading -/

/- Each call spends one unit of fuel, and at most two calls stand between one token and the next. -/
mutual

/-- An operand with its signs. -/
def operand : Nat → List Lexeme → Option (Expression × List Lexeme)
  | 0, _ => none
  | _, [] => none
  | _ + 1, .integer v :: rest => some (.number v, rest)
  | fuel + 1, .mark .openParen :: rest =>
    match climb fuel 0 rest with
    | some (e, .mark .closeParen :: rest) => some (e, rest)
    | _ => none
  | fuel + 1, t :: rest =>
    match Sign.ofLexeme? t with
    | some s => (operand fuel rest).map fun (e, rest) => (.signed s e, rest)
    | none => none

/-- An expression all of whose outer operators have at least the given level. -/
def climb : Nat → Nat → List Lexeme → Option (Expression × List Lexeme)
  | 0, _, _ => none
  | fuel + 1, lowest, ts =>
    match operand fuel ts with
    | some (e, rest) => continued fuel lowest e rest
    | none => none

/-- An expression that goes on after a left operand. -/
def continued : Nat → Nat → Expression → List Lexeme → Option (Expression × List Lexeme)
  | 0, _, _, _ => none
  | _, _, left, [] => some (left, [])
  | fuel + 1, lowest, left, t :: rest =>
    match Operator.ofLexeme? t with
    | some op =>
      if lowest ≤ op.level then
        match climb fuel (op.level + 1) rest with
        | some (right, rest) => continued fuel lowest (.binary op left right) rest
        | none => none
      else some (left, t :: rest)
    | none => some (left, t :: rest)

end

/-- The expression that a whole list of tokens spells. -/
def Expression.parse? (ts : List Lexeme) : Option Expression :=
  match climb (2 * ts.length + 2) 0 ts with
  | some (e, []) => some e
  | _ => none

/-- The value of a list of tokens as a constant expression. -/
def constant? (ts : List Lexeme) : Option Int :=
  (Expression.parse? ts).bind Expression.value?

end Enumerant.Header
