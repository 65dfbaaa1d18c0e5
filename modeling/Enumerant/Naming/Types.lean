import Enumerant.Naming.Member

/-!
# Names of types

The names that generated declarations carry: the group's name without the prefix of its interface,
the integer type that holds combined flags, and the tagged names of plain C declarations.
-/

namespace Enumerant.Naming

open Text

/-- A group's name without the prefix of its interface, unless nothing else would be left. -/
def typeName (group api : List Char) : List Char :=
  match after? api group with
  | some (c :: rest) => c :: rest
  | _ => group

/-- The type of combined flags: `FlagBits` becomes `Flags`, and a name without it gets `Flags`
appended. -/
def flagsTypeName (type : List Char) : List Char :=
  if contains flagBits type then replacedFrom flagBits "Flags".toList 0 type
  else type ++ "Flags".toList

/-- The name of a plain C type: the tag in title case, and the group's name without its prefix. -/
def taggedTypeName (group api tag : List Char) : List Char :=
  title tag ++ typeName group api

/-- The name of a plain C enumerator: `VK_FORMAT_R8_UNORM` with the tag `LE` is
`LE_FORMAT_R8_UNORM`. -/
def taggedMemberName (member api tag : List Char) : List Char :=
  let name := upperSnake member
  let rest :=
    if (upper api).isEmpty then name
    else (after? (upper api ++ ['_']) name).getD name
  if (upper tag).isEmpty then rest
  else upper tag ++ '_' :: rest.dropWhile (· == '_')

end Enumerant.Naming
