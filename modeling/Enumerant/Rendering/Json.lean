import Enumerant.Resolution.Enumeration

/-!
# Enumerations as JSON

The form in which other tools get a resolved group. A value is given by its lines, so that nesting
is indentation; members of objects without a value are left out.
-/

namespace Enumerant.Rendering.Json

/-! ### Values by their lines -/

/-- One character within a string. -/
def escapedChar (c : Char) : List Char :=
  if c.toNat = 0x22 ∨ c = '\\' then ['\\', c]
  else if c.toNat = 8 then ['\\', 'b']
  else if c.toNat = 9 then ['\\', 't']
  else if c.toNat = 10 then ['\\', 'n']
  else if c.toNat = 12 then ['\\', 'f']
  else if c.toNat = 13 then ['\\', 'r']
  else if c.toNat < 32 then '\\' :: 'u' :: Numeral.hex 4 c.toNat
  else [c]

/-- A string. -/
def string (s : String) : String :=
  "\"" ++ String.ofList (s.toList.flatMap escapedChar) ++ "\""

/-- Lines of which the last ends with a comma. -/
def withComma : List String → List String
  | [] => []
  | [line] => [line ++ ","]
  | line :: rest => line :: withComma rest

/-- The lines of items, with commas between the items. -/
def separated : List (List String) → List String
  | [] => []
  | [item] => item
  | item :: rest => withComma item ++ separated rest

/-- Items between brackets. -/
def bracketed (opening closing : String) (items : List (List String)) : List String :=
  if items.isEmpty then [opening ++ closing]
  else [opening] ++ (separated items).map ("  " ++ ·) ++ [closing]

/-- A list of values. -/
def list (items : List (List String)) : List String :=
  bracketed "[" "]" items

/-- The lines of a value behind its name. -/
def named (name : String) : List String → List String
  | [] => []
  | line :: rest => (string name ++ ": " ++ line) :: rest

/-- An object whose members are given in order; those without lines are left out. -/
def object (members : List (String × List String)) : List String :=
  bracketed "\x7b" "\x7d" <|
    (members.filter fun m => !m.2.isEmpty).map fun m => named m.1 m.2

/-! ### Enumerations -/

/-- The name of a kind. -/
def kindName : Kind → String
  | .plain => "plain"
  | .bitmask => "bitmask"

/-- One member. -/
def member (m : Enumerator) : List String :=
  object [
    ("source_name", [string m.sourceName]),
    ("friendly_name", [string m.friendlyName]),
    ("value", [toString m.value]),
    ("literal", [string m.literal]),
    ("alias_of", (m.target.map (string ·.friendlyName)).toList),
    ("alias_source", (m.target.map (string ·.sourceName)).toList),
    ("comment", (m.comment.map string).toList),
    ("sort_key", [string m.sortKey])]

/-- An enumeration. -/
def enumeration (e : Enumeration) : List String :=
  object [
    ("source_name", [string e.sourceName]),
    ("type_name", [string e.typeName]),
    ("flags_type_name", [string e.flagsTypeName]),
    ("bit_width", [toString e.width]),
    ("kind", [string (kindName e.kind)]),
    ("signed", [toString e.signed]),
    ("members", list (e.members.map member))]

end Enumerant.Rendering.Json

namespace Enumerant

/-- The JSON text of an enumeration. -/
def Enumeration.json (e : Enumeration) : String :=
  "\n".intercalate (Rendering.Json.enumeration e)

end Enumerant
