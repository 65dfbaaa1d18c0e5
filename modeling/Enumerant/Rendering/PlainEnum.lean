import Enumerant.Rendering.Block

/-!
# Plain C enumerations

An `enum` with tagged members in upper snake case, for places that rely on its values being
integers.
-/

namespace Enumerant.Rendering.PlainEnum

/-- The name of the type. -/
def typeName (e : Enumeration) (settings : Settings) : String :=
  String.ofList (Naming.taggedTypeName e.typeName.toList [] settings.projectTag.toList)

/-- The name of a member. -/
def memberName (settings : Settings) (sourceName : String) : String :=
  String.ofList (Naming.taggedMemberName sourceName.toList settings.apiPrefix.toList
    settings.projectTag.toList)

/-- The declaration of the type. -/
def declaration (e : Enumeration) (r : Request) (settings : Settings) : List String :=
  ["enum " ++ typeName e settings ++ " : " ++ storage e r ++ " \x7b"]
    ++ e.members.map (fun m =>
      memberLine settings.indent (memberName settings m.sourceName)
        (match m.target with
          | some target => memberName settings target.sourceName
          | none => m.literal)
        m.comment)
    ++ ["\x7d;"]

/-- The function that gives the name of a value. -/
def valueNames (e : Enumeration) (settings : Settings) : List String :=
  nameFunction settings (typeName e settings) "tp"
    (e.distinct.map fun m => (memberName settings m.sourceName, m.friendlyName))

/-- The whole block. -/
def lines (e : Enumeration) (r : Request) (settings : Settings) : List String :=
  declaration e r settings ++ (if r.table then "" :: valueNames e settings else [])

end Enumerant.Rendering.PlainEnum
