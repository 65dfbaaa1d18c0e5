import Enumerant.Request
import Enumerant.Resolution.Enumeration
import Enumerant.Text.Blank

/-!
# Generated blocks

A block of generated code is a list of lines, so its text ends with a line break unless it is empty.
What both styles share stands here: the storage type, the comment behind a member, and the frame of
the function that names values.
-/

namespace Enumerant.Rendering

/-- The text of a block: its lines, each with a line break. -/
def textOf (lines : List String) : String :=
  lines.foldr (fun line rest => line ++ "\n" ++ rest) ""

/-- Lines set in by some text. -/
def indented (indent : String) (lines : List String) : List String :=
  lines.map (indent ++ ·)

/-- The integer type that a request asks for, or else the one that fits. -/
def storage (e : Enumeration) (r : Request) : String :=
  r.storage.getD e.underlyingType

/-- What stands behind a member to give its comment; a blank comment gives nothing. -/
def commentSuffix (comment : Option String) : String :=
  match comment with
  | none => ""
  | some text => if Text.trimmed text = "" then "" else " // " ++ Text.trimmed text

/-- The line that declares a member. -/
def memberLine (indent name value : String) (comment : Option String) : String :=
  indent ++ name ++ " = " ++ value ++ "," ++ commentSuffix comment

/-- A text filled up with spaces on the left. -/
def alignRight (width : Nat) (s : String) : String :=
  String.ofList (List.replicate (width - s.toList.length) ' ') ++ s

/-- A text filled up with spaces on the right. -/
def alignLeft (width : Nat) (s : String) : String :=
  s ++ String.ofList (List.replicate (width - s.toList.length) ' ')

/-- The function that gives the name of a value of a type. Its cases are pairs of a label and a
name, and any other value has the name that is set for the unknown. -/
def nameFunction (settings : Settings) (typeName selector : String)
    (cases : List (String × String)) : List String :=
  let indent := settings.indent
  ["static constexpr char const* to_str(const " ++ typeName ++ "& tp) \x7b",
    indent ++ "switch (" ++ selector ++ ") \x7b",
    "// clang-format off"]
    ++ cases.map (fun (label, name) =>
      indent ++ indent ++ "case " ++ label ++ ": return \"" ++ name ++ "\";")
    ++ [indent ++ indent ++ "default: return \"" ++ settings.unknownName ++ "\";",
      indent ++ indent ++ "// clang-format on",
      indent ++ "\x7d",
      "\x7d"]

end Enumerant.Rendering
