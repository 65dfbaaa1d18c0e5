import Enumerant.Event
import Enumerant.Settings
import Enumerant.Text.Blank
import Enumerant.Yaml.Reading

/-!
# Reading settings

Settings are a YAML mapping of names to texts, save for the width of the banner, which is a number,
and for the groups, which have options of their own. A name that is not known is told and passed
over; the first entry of a wrong form ends the reading. Tags do not matter to names, texts and
numbers, but no sequence or mapping may have one of its own kind.
-/

namespace Enumerant.Settings

open Yaml (Node)

/-- Why settings cannot be read. -/
inductive Fault where
  | malformed
  | notMapping
  | notText (key : String)
  | notCount (key : String)
  | groupsNotMapping
  | groupNotMapping (group : String)
  | notNames (key : String)
  deriving DecidableEq, Repr

/-- The wording of a fault. -/
def Fault.message : Fault → String
  | malformed => "malformed YAML"
  | notMapping => "top level must be a mapping"
  | notText key => key ++ " must be a string"
  | notCount key => key ++ " must be a positive integer"
  | groupsNotMapping => "Groups must be a mapping of group name to options"
  | groupNotMapping group => "Groups." ++ group ++ " must be a mapping"
  | notNames key => key ++ " must be a list of member names"

/-! ### Values of entries -/

/-- The text under a key. -/
def textUnder (key : String) (n : Node) : Except Fault String :=
  match n.text? with
  | some s => .ok s
  | none => .error (.notText key)

/-- The number under a key. -/
def countUnder (key : String) (n : Node) : Except Fault Nat :=
  match n.integerValue? with
  | some v => if 0 ≤ v then .ok v.toNat else .error (.notCount key)
  | none => .error (.notCount key)

/-- The names under a key. -/
def namesUnder (key : String) : Node → Except Fault (List String)
  | .sequence items => items.mapM (textUnder key)
  | _ => .error (.notNames key)

/-! ### Groups -/

/-- Options with an entry for the named group added. -/
def addOption (group : String) (options : GroupOptions) (entry : Node × Node) :
    Logged (Except Fault GroupOptions) :=
  match entry.1.text? with
  | some "Name" =>
    { value := (textUnder ("Groups." ++ group ++ ".Name") entry.2).map fun s =>
        { options with typeName := some s } }
  | some "Exclude" =>
    { value := (namesUnder ("Groups." ++ group ++ ".Exclude") entry.2).map fun names =>
        { options with exclude := names } }
  | some key => { value := .ok options, events := [.unknownGroupOption group key] }
  | none => { value := .ok options }

/-- The options of the named group. -/
def optionsOf (group : String) : Node → Logged (Except Fault GroupOptions)
  | .mapping entries => Logged.foldl (addOption group) {} entries
  | .null => { value := .ok {} }
  | _ => { value := .error (.groupNotMapping group) }

/-- Settings with the options of one group added. -/
def addGroup (settings : Settings) (entry : Node × Node) : Logged (Except Fault Settings) :=
  match entry.1.text? with
  | some group =>
    (optionsOf group entry.2).andThen fun options =>
      { value := .ok { settings with groups := (group, options) :: settings.groups } }
  | none => { value := .ok settings }

/-! ### Settings -/

/-- Settings with an entry added. -/
def add (settings : Settings) (entry : Node × Node) : Logged (Except Fault Settings) :=
  let text (key : String) (set : String → Settings) : Logged (Except Fault Settings) :=
    { value := (textUnder key entry.2).map set }
  match entry.1.text? with
  | some "Source" => text "Source" fun s => { settings with source := some s }
  | some "ApiPrefix" => text "ApiPrefix" fun s => { settings with apiPrefix := s }
  | some "ProjectTag" => text "ProjectTag" fun s => { settings with projectTag := s }
  | some "MemberPrefix" => text "MemberPrefix" fun s => { settings with memberPrefix := s }
  | some "BitSuffix" => text "BitSuffix" fun s => { settings with bitSuffix := s }
  | some "Namespace" => text "Namespace" fun s => { settings with namespaceName := s }
  | some "UnknownName" => text "UnknownName" fun s => { settings with unknownName := s }
  | some "Indent" => text "Indent" fun s => { settings with indent := s }
  | some "BannerWidth" =>
    { value := (countUnder "BannerWidth" entry.2).map fun n => { settings with bannerWidth := n } }
  | some "Groups" =>
    match entry.2 with
    | .mapping entries => Logged.foldl addGroup settings entries
    | _ => { value := .error .groupsNotMapping }
  | some key => { value := .ok settings, events := [.unknownSetting key] }
  | none => { value := .ok settings }

/-- The settings that a node stands for. -/
def ofNode : Node → Logged (Except Fault Settings)
  | .mapping entries => Logged.foldl add {} entries
  | .null => { value := .ok {} }
  | _ => { value := .error .notMapping }

/-- The settings that a text gives; a blank one leaves all as it is. -/
def parse (text : String) : Logged (Except Fault Settings) :=
  if Text.trim text.toList = [] then { value := .ok {} }
  else
    match Yaml.parse? text with
    | some n => ofNode n
    | none => { value := .error .malformed }

end Enumerant.Settings
