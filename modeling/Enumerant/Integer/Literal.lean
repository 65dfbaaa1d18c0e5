import Enumerant.Integer.Numeral

/-!
# Integer literals of C

A literal is a radix mark, digits, and any run of the suffix letters `u`, `U`, `l`, `L`. The suffix
is taken off first: no radix up to sixteen has one of these letters as a digit, so nothing of the
number is lost.
-/

namespace Enumerant.Literal

/-- The letters of which suffixes are made. -/
def isSuffix (c : Char) : Bool :=
  c = 'u' || c = 'U' || c = 'l' || c = 'L'

/-- A literal without its suffix. -/
def withoutSuffix (cs : List Char) : List Char :=
  (cs.reverse.dropWhile isSuffix).reverse

/-- The radix that the front of a literal marks, and what follows the mark. A lone zero marks
nothing. -/
def radix : List Char → Nat × List Char
  | '0' :: 'x' :: cs => (16, cs)
  | '0' :: 'X' :: cs => (16, cs)
  | '0' :: 'b' :: cs => (2, cs)
  | '0' :: 'B' :: cs => (2, cs)
  | '0' :: c :: cs => (8, c :: cs)
  | cs => (10, cs)

/-- The value of a literal. -/
def parse? (cs : List Char) : Option Int :=
  let (r, digits) := radix (withoutSuffix cs)
  Numeral.integer? r digits

example : parse? "0x1FuL".toList = some 31 ∧ parse? "017".toList = some 15 ∧
    parse? "0b101".toList = some 5 ∧ parse? "42".toList = some 42 := by decide +kernel

example : parse? "0x".toList = none ∧ parse? "08".toList = none ∧ parse? "".toList = none := by
  decide +kernel

end Enumerant.Literal
