import Enumerant.Integer.Numeral

/-!
# Sort keys

Members are put in order by comparing texts. Values come first, in hexadecimal digits of one width,
negative ones complemented and marked so that they precede the others; aliases come after all
values, by the number of steps to the value that they stand for and then by name.
-/

namespace Enumerant.Resolution

/-- The number of hexadecimal digits that the largest magnitude among some values takes. -/
def keyWidth (values : List Int) : Nat :=
  (Nat.toDigits 16 ((values.map Int.natAbs).foldl max 0)).length

/-- The key of a value among values of a width. A negative one is taken from the power of sixteen
with that many digits, but of no more than 32 digits. -/
def literalKey (value : Int) (width : Nat) : String :=
  String.ofList <|
    if value < 0 then
      '0' :: '0' :: Numeral.hex width (Numeral.bit (4 * min width 32) - value.natAbs)
    else '0' :: '1' :: Numeral.hex width value.natAbs

/-- The key of an alias at a number of steps from its value, which takes four digits or more. -/
def aliasKey (depth : Nat) (name : String) : String :=
  String.ofList ('1' :: Numeral.padded 10 4 depth) ++ name

end Enumerant.Resolution
