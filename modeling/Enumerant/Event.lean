import Enumerant.Request
import Enumerant.Text.Quoted

/-!
# Events

What is worth telling about a run besides its result. Operations return their events in order, as
data; which of them are shown, and how, is decided where they are printed.
-/

namespace Enumerant

/-- How much an event matters. -/
inductive Severity where
  | warning
  | debug
  | trace
  deriving DecidableEq, Repr

namespace Severity

/-- The name of a severity. -/
def label : Severity → String
  | warning => "WARN"
  | debug => "DEBUG"
  | trace => "TRACE"

/-- The place of a severity in the order, the weightiest first. -/
def rank : Severity → Nat
  | warning => 2
  | debug => 4
  | trace => 5

end Severity

/-- Something worth telling. -/
inductive Event where
  | unknownSetting (key : String)
  | unknownGroupOption (group key : String)
  | settingsLoaded (path : String)
  | enumerationRead (group : String) (members : Nat)
  | bodyMissing (tag : Option String) (line : Nat)
  | additionOrphaned (group member : String)
  | schemaLoaded (path : String) (groups structs : Nat)
  | memberRepeated (group member : String)
  | valueUnevaluated (group member text : String)
  | valueUnresolved (group member : String)
  | targetDropped (group member : String)
  | friendlyNameTaken (group member friendly : String)
  | groupResolved (group : String) (members : Nat)
  | rendering (group : String) (style : Style) (table : Bool)
  | requestSkipped (fault : Request.Fault)
  | requestUnanswered (group : String)
  | regionUnanswered (group : String)
  | sessionEnded (rendered : Nat)
  | markersScanned (path : String) (regions : Nat)
  deriving DecidableEq, Repr

/-- The wording for a group that is not there. -/
def missingGroupMessage (group : String) : String :=
  "group `" ++ group ++ "` not found"

namespace Event

/-- How much an event matters. -/
def severity : Event → Severity
  | unknownSetting _ | unknownGroupOption _ _ | valueUnevaluated _ _ _ | valueUnresolved _ _
  | targetDropped _ _ | friendlyNameTaken _ _ _ | requestSkipped _ | requestUnanswered _
  | regionUnanswered _ => .warning
  | settingsLoaded _ | additionOrphaned _ _ | schemaLoaded _ _ _ | memberRepeated _ _
  | groupResolved _ _ | rendering _ _ _ | sessionEnded _ | markersScanned _ _ => .debug
  | enumerationRead _ _ | bodyMissing _ _ => .trace

/-- The part of the program that an event comes from. -/
def origin : Event → String
  | unknownSetting _ | unknownGroupOption _ _ | settingsLoaded _ => "enumgen::config"
  | enumerationRead _ _ | bodyMissing _ _ => "enumgen::schema::header"
  | additionOrphaned _ _ => "enumgen::schema::registry"
  | schemaLoaded _ _ _ => "enumgen::schema"
  | memberRepeated _ _ | valueUnevaluated _ _ _ | valueUnresolved _ _ | targetDropped _ _
  | friendlyNameTaken _ _ _ | groupResolved _ _ => "enumgen::resolve"
  | rendering _ _ _ => "enumgen::render"
  | requestSkipped _ | requestUnanswered _ | sessionEnded _ => "enumgen::driver"
  | regionUnanswered _ | markersScanned _ _ => "enumgen::patch"

/-- The wording of an event. -/
def message : Event → String
  | unknownSetting _ => "unknown config key ignored"
  | unknownGroupOption _ _ => "unknown group option ignored"
  | settingsLoaded _ => "config loaded"
  | enumerationRead _ _ => "header enum"
  | bodyMissing _ _ => "enum without body skipped"
  | additionOrphaned _ _ => "extension extends unknown group"
  | schemaLoaded _ _ _ => "schema loaded"
  | memberRepeated _ _ => "duplicate member skipped"
  | valueUnevaluated _ _ _ => "cannot evaluate initializer, member dropped"
  | valueUnresolved _ _ => "value does not resolve, member dropped"
  | targetDropped _ _ => "alias target was dropped, alias dropped"
  | friendlyNameTaken _ _ _ => "duplicate friendly name, member dropped"
  | groupResolved _ _ => "group resolved"
  | rendering _ _ _ => "rendering"
  | requestSkipped fault => "skipping request: " ++ fault.message
  | requestUnanswered group => missingGroupMessage group
  | regionUnanswered group => missingGroupMessage group
  | sessionEnded _ => "interactive session ended"
  | markersScanned _ _ => "markers scanned"

/-- A detail of an event. -/
inductive Detail where
  /-- Shown as it is. -/
  | plain (text : String)
  /-- Shown between quotes on a console. -/
  | quotable (text : String)

/-- A text that may be missing, as messages show it. -/
def optionLabel : Option String → String
  | some s => "Some(" ++ Text.quoted s ++ ")"
  | none => "None"

/-- The details of an event, by name and in order. -/
def details : Event → List (String × Detail)
  | unknownSetting key => [("key", .quotable key)]
  | unknownGroupOption group key => [("group", .quotable group), ("key", .quotable key)]
  | settingsLoaded path => [("path", .plain path)]
  | enumerationRead group members =>
    [("group", .plain group), ("members", .plain (toString members))]
  | bodyMissing tag line => [("tag", .plain (optionLabel tag)), ("line", .plain (toString line))]
  | additionOrphaned group member => [("group", .plain group), ("member", .plain member)]
  | schemaLoaded path groups structs =>
    [("path", .plain path), ("groups", .plain (toString groups)),
      ("structs", .plain (toString structs))]
  | memberRepeated group member => [("group", .plain group), ("member", .plain member)]
  | valueUnevaluated group member text =>
    [("group", .plain group), ("member", .plain member), ("value", .plain text)]
  | valueUnresolved group member => [("group", .plain group), ("member", .plain member)]
  | targetDropped group member => [("group", .plain group), ("member", .plain member)]
  | friendlyNameTaken group member friendly =>
    [("group", .plain group), ("member", .plain member), ("friendly", .plain friendly)]
  | groupResolved group members =>
    [("group", .plain group), ("members", .plain (toString members))]
  | rendering group style table =>
    [("group", .plain group), ("style", .plain style.label),
      ("string_table", .plain (toString table))]
  | sessionEnded rendered => [("rendered", .plain (toString rendered))]
  | markersScanned path regions =>
    [("path", .plain path), ("regions", .plain (toString regions))]
  | requestSkipped _ | requestUnanswered _ | regionUnanswered _ => []

/-- An event as one line: its severity, its wording and its details. -/
def record (e : Event) : String :=
  e.details.foldl
    (fun line (name, detail) =>
      line ++ " " ++ name ++ "=" ++ match detail with | .plain s => s | .quotable s => s)
    (e.severity.label ++ " " ++ e.message)

/-- An event as a console shows it, with its origin if wanted. -/
def consoleLine (withOrigin : Bool) (e : Event) : String :=
  let level := e.severity.label
  let level := if level.length < 5 then " " ++ level else level
  e.details.foldl
    (fun line (name, detail) =>
      line ++ " " ++ name ++ "=" ++ match detail with
        | .plain s => s
        | .quotable s => Text.quoted s)
    (level ++ " " ++ (if withOrigin then e.origin ++ ": " else "") ++ Text.shown e.message)

end Event

/-- A value with what there is to tell of how it was found. -/
structure Logged (α : Type) where
  value : α
  events : List Event := []
  deriving DecidableEq, Repr

namespace Logged

/-- What follows from a value that was found, after the events of finding it. -/
def andThen {ε α β : Type} (first : Logged (Except ε α)) (next : α → Logged (Except ε β)) :
    Logged (Except ε β) :=
  match first.value with
  | .error e => { value := .error e, events := first.events }
  | .ok a => { value := (next a).value, events := first.events ++ (next a).events }

/-- A state taken through items one by one, until one of them fails. -/
def foldl {ε σ α : Type} (step : σ → α → Logged (Except ε σ)) (state : σ) :
    List α → Logged (Except ε σ)
  | [] => { value := .ok state }
  | a :: as => (step state a).andThen fun state => foldl step state as

end Logged

end Enumerant
