import Enumerant.Integer.Numeral

/-!
# Numbers in double precision

A decimal number is rounded to double precision: to 53 binary digits, but not finer than the
smallest step, and to the even side if it lies halfway. Every number in double precision is a whole
number of smallest steps, so two of them are the same if they are as many steps.
-/

namespace Enumerant.Yaml

/-- A number in double precision. There is one zero and one undefined number. -/
inductive Double where
  /-- A whole number of smallest steps, which are 2 to the power of -1074. -/
  | finite (steps : Int)
  | infinite (isNegative : Bool)
  | undefined
  deriving DecidableEq, Repr

namespace Double

/-- The whole number next to a quotient; of two that are as near, the even one. -/
def roundedQuotient (n d : Nat) : Nat :=
  if 2 * (n % d) < d ∨ (2 * (n % d) = d ∧ n / d % 2 = 0) then n / d else n / d + 1

/-- The number with at most 53 binary digits next to a quotient. -/
def shortQuotient (n d : Nat) : Nat :=
  let unit := Numeral.bit (Nat.log2 (n / d) + 1 - 53)
  roundedQuotient n (d * unit) * unit

/-- The steps of a factor times a power of ten; `none` if there are too many for a finite number. -/
def steps? (factor : Nat) (e : Int) : Option Nat :=
  let magnitude := e + (Nat.toDigits 10 factor).length
  if factor = 0 ∨ magnitude < -330 then some 0
  else if 330 < magnitude then none
  else
    let steps := shortQuotient (factor * Nat.pow 10 e.toNat * Numeral.bit 1074)
      (Nat.pow 10 (-e).toNat)
    if steps < Numeral.bit 2098 then some steps else none

/-- The number next to a factor times a power of ten, if it is finite. -/
def ofDecimal? (isNegative : Bool) (factor : Nat) (e : Int) : Option Double :=
  (steps? factor e).map fun steps => finite (if isNegative then -(steps : Int) else steps)

example : ofDecimal? false 9007199254740993 0 = ofDecimal? false 9007199254740992 0 := by
  decide +kernel

example : ofDecimal? false 5 (-324) = some (finite 1) ∧ ofDecimal? true 2 (-324) = some (finite 0)
    ∧ ofDecimal? false 1 309 = none := by
  decide +kernel

end Double

end Enumerant.Yaml
