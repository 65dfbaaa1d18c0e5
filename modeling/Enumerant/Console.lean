import Enumerant.Event
import Enumerant.Text.Blank
import Enumerant.Text.Part

/-!
# What a console shows

A filter decides which events are shown. It is a list of directives, each a level, the part of the
program that it holds for, or both; of those that hold for an event the one that names the most
wins.
-/

namespace Enumerant.Console

/-- Events of at least some weight are shown if they come from a part of the program. -/
structure Directive where
  /-- What the origin of an event starts with. -/
  origin : String
  /-- The rank of the lightest events that are shown. -/
  rank : Nat
  deriving DecidableEq, Repr

/-- What is shown, and whether it is shown with its origin. -/
structure Filter where
  directives : List Directive
  withOrigin : Bool := false
  deriving DecidableEq, Repr

/-- The rank of the lightest events of a level. -/
def rank? (level : List Char) : Option Nat :=
  match String.ofList (level.map Char.toLower) with
  | "off" | "0" => some 0
  | "error" | "1" => some 1
  | "warn" | "2" => some 2
  | "info" | "3" => some 3
  | "debug" | "4" => some 4
  | "trace" | "5" => some 5
  | _ => none

/-- The directive that a text stands for. -/
def directive? (text : List Char) : Option Directive :=
  let origin := Text.trim (text.takeWhile (· != '='))
  match text.dropWhile (· != '=') with
  | _ :: level => (rank? (Text.trim level)).map fun rank => ⟨String.ofList origin, rank⟩
  | [] =>
    if origin = [] then none
    else
      match rank? origin with
      | some rank => some ⟨"", rank⟩
      | none => some ⟨String.ofList origin, 5⟩

/-- The filter that a text stands for; what is no directive is passed over. -/
def Filter.parse (text : String) : Filter where
  directives := (Text.fields (· == ',') text.toList).filterMap directive?

/-- The filter that shows everything but the lightest events, with their origin. -/
def Filter.debugging : Filter where
  directives := [⟨"", 4⟩]
  withOrigin := true

/-- The directive for an event: of those that hold the one that names the most, and of several that
name as much the last. -/
def Filter.directiveFor? (f : Filter) (e : Event) : Option Directive :=
  (f.directives.filter fun d => d.origin.toList.isPrefixOf e.origin.toList).foldl
    (fun best d =>
      match best with
      | some b => if b.origin.length ≤ d.origin.length then some d else some b
      | none => some d)
    none

/-- Whether an event is shown. -/
def Filter.shows (f : Filter) (e : Event) : Bool :=
  (f.directiveFor? e).any fun d => e.severity.rank ≤ d.rank

/-- The lines that a console shows of events. -/
def Filter.lines (f : Filter) (events : List Event) : List String :=
  (events.filter f.shows).map (Event.consoleLine f.withOrigin)

end Enumerant.Console
