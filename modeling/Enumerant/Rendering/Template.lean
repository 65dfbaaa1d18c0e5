import Enumerant.Rendering.Block

/-!
# Initializer templates

The skeleton of an initializer for a structure: a line for each field, with the names brought to one
width.
-/

namespace Enumerant.Rendering.Template

/-- The value that a field starts with: the fixed one if it has one, and zero or a null pointer
otherwise. -/
def initialValue (f : Field) : String :=
  if f.typeName = "void" then "nullptr" else f.fixed.getD "0"

/-- The line of a field. -/
def fieldLine (indent : String) (width : Nat) (f : Field) : String :=
  indent ++ "." ++ alignLeft width f.name ++ " = " ++ initialValue f ++ ","
    ++ if f.isOptional then " // optional" else ""

/-- The template of a structure. -/
def lines (d : Struct) (settings : Settings) : List String :=
  let width := (d.fields.map (·.name.toList.length)).foldl max 0 + 2
  [d.name ++ " = \x7b"] ++ d.fields.map (fieldLine settings.indent width) ++ ["\x7d;"]

end Enumerant.Rendering.Template
