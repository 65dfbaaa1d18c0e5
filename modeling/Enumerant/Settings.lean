/-!
# Settings

What can be configured, and the values that hold where nothing is said. They follow the conventions
of the Vulkan registry.
-/

namespace Enumerant

/-- What can be configured for a single group. -/
structure GroupOptions where
  /-- Stands for the type name that the group's name would give. -/
  typeName : Option String := none
  /-- Members that are left out. -/
  exclude : List String := []
  deriving DecidableEq, Repr

/-- What can be configured. -/
structure Settings where
  /-- The source that is read if none is named otherwise. -/
  source : Option String := none
  /-- The prefix of the interface, which type names lose. -/
  apiPrefix : String := "Vk"
  /-- The tag that plain C names get. -/
  projectTag : String := "LE"
  /-- What stands before every member of a scoped enumeration. -/
  memberPrefix : String := "e"
  /-- What members that are a single bit end with, and lose. -/
  bitSuffix : String := "Bit"
  /-- The namespace around a generated header; none if empty. -/
  namespaceName : String := "le"
  /-- The name that is given for a value that has none. -/
  unknownName : String := "Unknown"
  indent : String := "\t"
  /-- The number of dashes in a banner. -/
  bannerWidth : Nat := 70
  /-- The options of groups; the first ones for a group hold. -/
  groups : List (String × GroupOptions) := []
  deriving DecidableEq, Repr

namespace Settings

/-- What is configured for a group. -/
def options (s : Settings) (group : String) : GroupOptions :=
  (s.groups.lookup group).getD {}

/-- The line that stands between generated blocks. -/
def banner (s : Settings) : String :=
  "// " ++ String.ofList (List.replicate s.bannerWidth '-')

end Settings

end Enumerant
