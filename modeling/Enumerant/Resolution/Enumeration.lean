import Enumerant.Event
import Enumerant.Naming.Types
import Enumerant.Resolution.SortKey
import Enumerant.Resolution.Value
import Enumerant.Settings

/-!
# Resolved enumerations

A group becomes an enumeration: members that are left out or repeated go, the others get their
values, and those of them that can be declared are named and put in order. Whatever is dropped
without having been asked for is told in an event, save the range markers, which are never declared.
-/

namespace Enumerant

/-- The member that an alias stands for. -/
structure Alias where
  friendlyName : String
  sourceName : String
  deriving DecidableEq, Repr

/-- A member as it is declared; `literal` stands for its value in generated code. -/
structure Enumerator where
  sourceName : String
  friendlyName : String
  value : Int
  literal : String
  target : Option Alias
  comment : Option String
  sortKey : String
  deriving DecidableEq, Repr

/-- A group as it is declared, its members in order. -/
structure Enumeration where
  sourceName : String
  typeName : String
  flagsTypeName : String
  width : Nat
  kind : Kind
  signed : Bool
  members : List Enumerator
  deriving DecidableEq, Repr

namespace Enumeration

/-- The integer type that holds the values. -/
def underlyingType (e : Enumeration) : String :=
  (if e.signed then "int" else "uint") ++ toString e.width ++ "_t"

/-- The members that are no alias and whose value no earlier one of them has. -/
def distinctFrom (seen : List Int) : List Enumerator → List Enumerator
  | [] => []
  | m :: ms =>
    if m.target.isNone ∧ m.value ∉ seen then m :: distinctFrom (m.value :: seen) ms
    else distinctFrom seen ms

/-- The members that stand for their values: the first of each value that is no alias. -/
def distinct (e : Enumeration) : List Enumerator :=
  distinctFrom [] e.members

end Enumeration

namespace Resolution

/-! ### Members to be resolved -/

/-- Members of which none has one of the given names or that of an earlier one. -/
def firsts (seen : List String) : List Member → List Member
  | [] => []
  | m :: ms => if m.name ∈ seen then firsts seen ms else m :: firsts (m.name :: seen) ms

/-- The members that `firsts` leaves out. -/
def repeats (seen : List String) : List Member → List Member
  | [] => []
  | m :: ms => if m.name ∈ seen then m :: repeats seen ms else repeats (m.name :: seen) ms

/-- The members of a group that are not left out. -/
def included (g : Group) (options : GroupOptions) : List Member :=
  g.members.filter (·.name ∉ options.exclude)

/-- A member with its index and the value found for it. -/
structure Candidate where
  index : Nat
  member : Member
  valued : Option Valued
  deriving DecidableEq, Repr

/-- The members with their values. -/
def candidates (members : List Member) : List Candidate :=
  (members.zip (settled members)).mapIdx fun i (m, slot) => ⟨i, m, slot.valued?⟩

/-- Whether a name is that of a range marker. -/
def isMarker (name : String) : Bool :=
  Naming.isRangeMarker name.toList

/-- The camel-case name of a member in a group; one that would be empty is made of the whole name.
-/
def friendlyName (group member bitSuffix : String) : String :=
  String.ofList <|
    match Naming.memberFriendly group.toList member.toList bitSuffix.toList with
    | [] => Naming.camel member.toList
    | name => name

/-! ### From candidates to enumerators -/

/-- The member that a reference among the given members names. -/
def target? (members : List Member) (m : Member) : Option Member :=
  match m.value with
  | .reference name => members.find? (·.name == name)
  | _ => none

/-- The text that stands for a member in generated code. -/
def literalOf (m : Member) (value : Int) : String :=
  match m.value with
  | .literal _ text => text
  | _ => toString value

/-- The enumerator of a member with a value; `width` is that of the keys. -/
def enumerator (g : Group) (settings : Settings) (members : List Member) (width : Nat) (m : Member)
    (v : Valued) : Enumerator where
  sourceName := m.name
  friendlyName := friendlyName g.name m.name settings.bitSuffix
  value := v.value
  literal := literalOf m v.value
  target := (target? members m).map fun t =>
    ⟨friendlyName g.name t.name settings.bitSuffix, t.name⟩
  comment := m.comment
  sortKey := if v.depth = 0 then literalKey v.value width else aliasKey v.depth m.name

/-- Whether a member refers to a range marker, which is never declared. -/
def refersToMarker (members : List Member) (m : Member) : Bool :=
  (target? members m).any (isMarker ·.name)

/-- The width of the keys of values. Every value counts that was found, declared or not. -/
def valueWidth (members : List Member) : Nat :=
  keyWidth ((candidates members).filterMap fun c => c.valued.map Valued.value)

/-- The enumerators with values of a group, not yet in order. -/
def enumerators (g : Group) (settings : Settings) (members : List Member) : List Enumerator :=
  let width := valueWidth members
  (candidates members).filterMap fun c =>
    if isMarker c.member.name || refersToMarker members c.member then none
    else c.valued.map (enumerator g settings members width c.member)

/-- Whether an enumerator precedes another by its key. -/
def precedes (a b : Enumerator) : Bool :=
  decide (a.sortKey ≤ b.sortKey)

/-- Whether an alias has the friendly name of its target. -/
def isSelfNamed (e : Enumerator) : Bool :=
  e.target.any (·.friendlyName == e.friendlyName)

/-- The enumerators whose friendly name is neither taken by an earlier one nor by their target. -/
def uniquelyNamed (taken : List String) : List Enumerator → List Enumerator
  | [] => []
  | e :: es =>
    if e.friendlyName ∈ taken ∨ isSelfNamed e then uniquelyNamed (e.friendlyName :: taken) es
    else e :: uniquelyNamed (e.friendlyName :: taken) es

/-- The enumerators that `uniquelyNamed` leaves out. -/
def nameClashes (taken : List String) : List Enumerator → List Enumerator
  | [] => []
  | e :: es =>
    if e.friendlyName ∈ taken ∨ isSelfNamed e then e :: nameClashes (e.friendlyName :: taken) es
    else nameClashes (e.friendlyName :: taken) es

/-! ### Events -/

/-- The event for a member whose initializer has no known value. -/
def unevaluatedEvent? (group : String) (m : Member) : Option Event :=
  match m.value with
  | .unevaluated text => some (.valueUnevaluated group m.name text)
  | _ => none

/-- The event for a member that would take its value from others and finds none. -/
def unresolvedEvent? (group : String) (c : Candidate) : Option Event :=
  if isMarker c.member.name ∨ c.valued.isSome then none
  else
    match c.member.value with
    | .implicit | .reference _ => some (.valueUnresolved group c.member.name)
    | _ => none

/-- The event for an alias of a range marker. -/
def targetEvent? (group : String) (members : List Member) (c : Candidate) : Option Event :=
  if !isMarker c.member.name && c.valued.isSome && refersToMarker members c.member then
    some (.targetDropped group c.member.name)
  else none

end Resolution

/-! ### Groups -/

namespace Group

open Resolution

/-- The members of a group that take part: none is left out and none repeats an earlier one. -/
def participants (g : Group) (settings : Settings) : List Member :=
  firsts [] (included g (settings.options g.name))

/-- The enumerators with values of a group, in order. -/
def ordered (g : Group) (settings : Settings) : List Enumerator :=
  (enumerators g settings (g.participants settings)).mergeSort precedes

/-- The enumeration of a group. -/
def resolve (g : Group) (settings : Settings) : Logged Enumeration :=
  let options := settings.options g.name
  let members := g.participants settings
  let sorted := g.ordered settings
  let declared := uniquelyNamed [] sorted
  let typeName := options.typeName.getD
    (String.ofList (Naming.typeName g.name.toList settings.apiPrefix.toList))
  { value :=
      { sourceName := g.name
        typeName := typeName
        flagsTypeName := String.ofList (Naming.flagsTypeName typeName.toList)
        width := g.width
        kind := g.kind
        signed := g.kind = .plain ∧ declared.any (·.value < 0)
        members := declared }
    events :=
      (repeats [] (included g options)).map (fun m => .memberRepeated g.name m.name)
        ++ members.filterMap (unevaluatedEvent? g.name)
        ++ (candidates members).filterMap (unresolvedEvent? g.name)
        ++ (candidates members).filterMap (targetEvent? g.name members)
        ++ (nameClashes [] sorted).map (fun e =>
          .friendlyNameTaken g.name e.sourceName e.friendlyName)
        ++ [.groupResolved g.name declared.length] }

end Group

/-- The group of a full name, or of one that lacks the prefix of the interface. -/
def Schema.lookup (s : Schema) (settings : Settings) (name : String) : Option Group :=
  (s.group? name).orElse fun _ => s.group? (settings.apiPrefix ++ name)

end Enumerant
