import Enumerant.Naming.Words
import Enumerant.Text.Offset
import Enumerant.Text.Part

/-!
# Names of members

A member repeats the name of its group: `VK_CULL_MODE_FRONT_BIT` stands in `VkCullModeFlagBits`.
Here the repeated front is found and taken off, along with the suffix that marks a single bit, and
the members that only bound the range of their enumeration are recognised.
-/

namespace Enumerant.Naming

open Text

/-! ### The part of a name that repeats its group -/

/-- The camel-case form of a name without the prefixes in front and the suffix behind. -/
def friendly (name front tail : List Char) : List Char :=
  withoutSuffix tail (withoutRepeated front (camel name))

/-- The word that marks the enumeration of single flags. -/
def flagBits : List Char :=
  "FlagBits".toList

/-- The part of a group's name that its members repeat: what stands before `FlagBits`, and a `2` for
the second generation of flags. -/
def valuePrefix (group : List Char) : List Char :=
  upTo flagBits group ++ if contains (flagBits ++ ['2']) group then ['2'] else []

/-- What two texts have in common in front, cut back to the last underscore unless the whole first
text is repeated. -/
def commonWords (candidate name : List Char) : List Char :=
  let common := commonPrefix candidate name
  if common.length = candidate.length then common
  else (common.reverse.dropWhile (· != '_')).reverse

/-- The number of bytes in front of a member that repeat the name of its group, counted in the
upper-case form of the member. The group may be spelled with or without a break before its numbers;
the longer repetition counts. -/
def redundantLength (group member : List Char) : Nat :=
  let name := upperSnake (valuePrefix group)
  let spaced := breakBetween Char.isUpper Char.isDigit name
  let member := upper member
  max (byteLength (commonWords (name ++ ['_']) member))
    (byteLength (commonWords (spaced ++ ['_']) member))

/-- The camel-case name of a member within its group: `VK_CULL_MODE_FRONT_BIT` in
`VkCullModeFlagBits` is `Front`. -/
def memberFriendly (group member bitSuffix : List Char) : List Char :=
  let repeated := match splitAt? (redundantLength group member) member with
    | some (front, _) => front
    | none => []
  friendly member (camel repeated) bitSuffix

/-! ### Range markers -/

/-- The words that mark a member as a bound of its enumeration. -/
def rangeMarkers : List (List Char) :=
  ["MAX_ENUM", "BEGIN_RANGE", "END_RANGE", "RANGE_SIZE"].map String.toList

/-- Whether a member only bounds the range of its enumeration. -/
def isRangeMarker (member : List Char) : Bool :=
  rangeMarkers.any (contains · (upperSnake member))

end Enumerant.Naming
