import Enumerant.Resolution.Enumeration

/-!
# Names of values

What the generated functions answer, without running them: the name of a value, and the names of the
bits in a combination of flags, lowest bit first.
-/

namespace Enumerant.Enumeration

/-- The name of a value. -/
def describe (e : Enumeration) (settings : Settings) (value : Int) : String :=
  match e.distinct.find? (·.value == value) with
  | some m => m.friendlyName
  | none => settings.unknownName

/-- The value with nothing but one bit, in 128 bits. Beyond them it is none and counts as zero. -/
def bitValue (position : Nat) : Int :=
  if position < 128 then wrapped (Numeral.bit position) else 0

/-- The names of the bits that are set in flags, lowest bit first. The flags are moved down bit by
bit; the position is the one that their lowest bit has come from. -/
def bitNamesFrom (e : Enumeration) (settings : Settings) (position flags : Nat) : List String :=
  if flags = 0 then []
  else
    let names := e.bitNamesFrom settings (position + 1) (flags >>> 1)
    if flags % 2 = 1 then e.describe settings (bitValue position) :: names else names
termination_by flags

/-- The names of the bits that are set in a number. -/
def describeFlags (e : Enumeration) (settings : Settings) (value : Nat) : String :=
  " | ".intercalate (e.bitNamesFrom settings 0 value)

end Enumerant.Enumeration
