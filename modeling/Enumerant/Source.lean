import Enumerant.Failure
import Enumerant.Header.Reading
import Enumerant.Registry.Reading

/-!
# Sources

A source is a registry if its name says so and a header otherwise. What is to be told of it comes
with the schema; of a header it is told even if reading fails further on.
-/

namespace Enumerant

/-! ### Texts -/

/-- The event that an item of a header gives rise to. -/
def Header.Item.event? : Header.Item → Option Event
  | .group g => some (.enumerationRead g.name g.members.length)
  | .anonymous => none
  | .bodiless tag line => some (.bodyMissing tag line)

/-- The schema of a header, with its events. -/
def Header.schema (text : String) : Logged (Except Header.Fault Schema) where
  value := Header.parse text
  events := (Header.read text).items.filterMap Header.Item.event?

/-- The schema of a registry, with its events. -/
def Registry.schema (text : String) : Logged (Except Registry.Fault Schema) :=
  match Registry.read text with
  | .error fault => { value := .error fault }
  | .ok contents =>
    { value := .ok contents.schema
      events := contents.orphans.map fun a => .additionOrphaned a.group a.member.name }

/-! ### Files -/

/-- What stands behind the last dot in the last name of a path; a dot in front of a name does not
count. -/
def extension? (path : String) : Option String := do
  let name ← ((Directory.names path).filter (· ≠ ".")).getLast?
  let reversed := name.toList.reverse
  match name == "..", reversed.dropWhile (· != '.') with
  | false, '.' :: _ :: _ => some (String.ofList (reversed.takeWhile (· != '.')).reverse)
  | _, _ => none

/-- Whether a path leads to a registry. -/
def isRegistryPath (path : String) : Bool :=
  (extension? path).any fun e => e.toList.map Char.toLower == "xml".toList

/-- The schema that a text stands for, read from a path. -/
def schemaOf (path text : String) : Logged (Except Failure Schema) :=
  if isRegistryPath path then
    let read := Registry.schema text
    { read with value := read.value.mapError (.registryFaulty path) }
  else
    let read := Header.schema text
    { read with value := read.value.mapError (.headerFaulty path) }

/-- The schema of the source at a path. -/
def Directory.loadSchema (d : Directory) (path : String) : Logged (Except Failure Schema) :=
  match d.readText path with
  | .error fault => { value := .error (.sourceUnread path fault) }
  | .ok text =>
    (schemaOf path text).andThen fun schema =>
      { value := .ok schema
        events := [.schemaLoaded path schema.groups.length schema.structs.length] }

/-! ### Settings -/

/-- Where settings are looked for if no path is given. -/
def defaultSettingsPath : String :=
  ".enumgen.yml"

/-- The settings in the file at a path. -/
def Directory.readSettings (d : Directory) (path : String) : Logged (Except Failure Settings) :=
  match d.readText path with
  | .error fault => { value := .error (.settingsUnread path fault) }
  | .ok text =>
    let read := Settings.parse text
    Logged.andThen { read with value := read.value.mapError (.settingsFaulty path) } fun settings =>
      { value := .ok settings, events := [.settingsLoaded path] }

/-- The settings at a path if one is given, and otherwise those at the usual place, if there are
any. -/
def Directory.loadSettings (d : Directory) : Option String → Logged (Except Failure Settings)
  | some path =>
    if d.leadsAnywhere path then d.readSettings path
    else { value := .error (.settingsMissing path) }
  | none =>
    if d.leadsAnywhere defaultSettingsPath then d.readSettings defaultSettingsPath
    else { value := .ok {} }

end Enumerant
