import Enumerant.Rendering.Describe
import Enumerant.Rendering.EnumClass
import Enumerant.Rendering.Json
import Enumerant.Rendering.PlainEnum
import Enumerant.Rendering.Template

/-!
# Answers to requests

A request is answered by a block of generated code, or by a note that its group is not there.
-/

namespace Enumerant

/-- The lines of an enumeration in the style of a request. -/
def Enumeration.lines (e : Enumeration) (r : Request) (settings : Settings) : List String :=
  match r.style with
  | .enumClass => Rendering.EnumClass.lines e r settings
  | .plainEnum => Rendering.PlainEnum.lines e r settings

/-- The block of generated code that answers a request, if its group is there. -/
def Schema.answer? (s : Schema) (settings : Settings) (r : Request) : Option (Logged String) :=
  (s.lookup settings r.group).map fun g =>
    let resolved := g.resolve settings
    { value := Rendering.textOf (resolved.value.lines r settings)
      events := resolved.events ++ [.rendering resolved.value.sourceName r.style r.table] }

/-- What stands in the place of a group that is not there. -/
def missingNote (group : String) : String :=
  "// Not found: " ++ group ++ "\n"

/-- Whether a text uses the string type of the standard library. -/
def needsStringHeader (text : String) : Bool :=
  Text.contains "std::string".toList text.toList

/-- The initializer template of a structure. -/
def Struct.template (d : Struct) (settings : Settings) : String :=
  Rendering.textOf (Rendering.Template.lines d settings)

end Enumerant
