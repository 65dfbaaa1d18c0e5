import Enumerant.Markup.Event
import Enumerant.Registry.Entry

/-!
# Reading a registry

A registry holds blocks of members, features and extensions that add members to the blocks, and
structures. Blocks come first in their group, wherever they stand: what an extension adds is put
behind the members of all blocks. The document is read event by event.
-/

namespace Enumerant.Registry

open Markup (Tag)

/-- A member that an element outside its block adds to a group. A single bit is spelled for the
width of the group, so its position is kept. -/
structure Addition where
  group : String
  member : Member
  position : Option Nat
  deriving DecidableEq, Repr

/-- The child of a field's element whose text is being read. -/
inductive Part where
  | typeName
  | name
  deriving DecidableEq, Repr

/-- A field whose element is open, with the number of nested elements that are passed over. -/
structure OpenField where
  field : Field
  part : Option Part := none
  ignored : Nat := 0
  deriving DecidableEq, Repr

/-- What has been read of a registry so far. -/
structure State where
  schema : Schema := .of []
  additions : List Addition := []
  group : Option Group := none
  extension : Option Int := none
  struct : Option Struct := none
  field : Option OpenField := none
  deriving DecidableEq, Repr

/-! ### Elements within a field -/

/-- A field after a child of its element opens. -/
def OpenField.opened (f : OpenField) (name : String) : OpenField :=
  if f.ignored = 0 ∧ name = "type" then { f with part := some .typeName }
  else if f.ignored = 0 ∧ name = "name" then { f with part := some .name }
  else { f with ignored := f.ignored + 1 }

/-- A field after some of the text in its element. -/
def OpenField.withText (f : OpenField) (text : String) : OpenField :=
  if f.ignored > 0 then f
  else
    match f.part with
    | some .typeName => { f with field := { f.field with typeName := f.field.typeName ++ text } }
    | some .name => { f with field := { f.field with name := f.field.name ++ text } }
    | none =>
      if text.toList.contains '*' then { f with field := { f.field with isPointer := true } } else f

/-! ### Elements -/

/-- The attributes of a tag. -/
def attributesOf (tag : Tag) : Except Fault Attributes :=
  match Markup.attributes tag.attributes with
  | .ok attrs => .ok attrs
  | .error .form => .error .badAttribute
  | .error .value => .error .badAttributeValue

/-- The kind of the members in a block, if its attributes say that it is one. -/
def blockKind? (attrs : Attributes) : Option Kind :=
  match attrs.lookup "type" with
  | some "bitmask" => some .bitmask
  | some "enum" => some .plain
  | _ => none

/-- The group that a block opens. -/
def block? (attrs : Attributes) : Except Fault (Option Group) :=
  match blockKind? attrs, attrs.lookup "name" with
  | some kind, some name =>
    match attrs.lookup "bitwidth" with
    | none => .ok (some { name, kind })
    | some width =>
      match word? width with
      | some w => .ok (some { name, kind, width := w })
      | none => .error (.badWidth name width)
  | _, _ => .ok none

namespace State

/-- The state after an `<enums>` tag. -/
def openBlock (s : State) (attrs : Attributes) (isEmpty : Bool) : Except Fault State :=
  match block? attrs with
  | .error fault => .error fault
  | .ok none => .ok s
  | .ok (some g) =>
    .ok (if isEmpty then { s with schema := s.schema.addGroup g } else { s with group := some g })

/-- The state after an `<enum>` tag. -/
def openEntry (s : State) (attrs : Attributes) : Except Fault State :=
  match s.group with
  | some g =>
    match entryOf? attrs g.width none with
    | .error fault => .error fault
    | .ok member => .ok { s with group := some { g with members := g.members ++ member.toList } }
  | none =>
    match attrs.lookup "extends" with
    | none => .ok s
    | some target =>
      match entryOf? attrs 32 s.extension with
      | .error fault => .error fault
      | .ok none => .ok s
      | .ok (some member) =>
        let position := (attrs.lookup "bitpos").bind word?
        .ok { s with additions := s.additions ++ [⟨target, member, position⟩] }

/-- The state after a `<type>` tag that has content. -/
def openStruct (s : State) (attrs : Attributes) : State :=
  match attrs.lookup "category", attrs.lookup "alias", attrs.lookup "name" with
  | some "struct", none, some name => { s with struct := some { name } }
  | _, _, _ => s

/-- The state after a `<member>` tag that has content, within a structure. -/
def openField (s : State) (attrs : Attributes) : State :=
  let isOptional := match attrs.lookup "optional" with
    | some value => value.toList.takeWhile (· != ',') = "true".toList
    | none => false
  { s with field := some { field := { isOptional, fixed := attrs.lookup "values" } } }

/-- The state after a tag. -/
def opened (s : State) (tag : Tag) : Except Fault State :=
  match s.field with
  | some f => .ok (if tag.isEmpty then s else { s with field := some (f.opened tag.name) })
  | none =>
    let withAttributes (f : Attributes → Except Fault State) : Except Fault State :=
      match attributesOf tag with
      | .ok attrs => f attrs
      | .error fault => .error fault
    match tag.name with
    | "enums" => withAttributes (s.openBlock · tag.isEmpty)
    | "enum" => withAttributes s.openEntry
    | "extension" =>
      withAttributes fun attrs => .ok { s with extension := (attrs.lookup "number").bind number? }
    | "feature" => .ok { s with extension := none }
    | "type" => if tag.isEmpty then .ok s else withAttributes fun attrs => .ok (s.openStruct attrs)
    | "member" =>
      if tag.isEmpty ∨ s.struct.isNone then .ok s
      else withAttributes fun attrs => .ok (s.openField attrs)
    | _ => .ok s

/-- The state after an end tag within the element of a field. -/
def closedInField (s : State) (f : OpenField) (name : String) : State :=
  if f.ignored > 0 then { s with field := some { f with ignored := f.ignored - 1 } }
  else
    match name with
    | "type" | "name" => { s with field := some { f with part := none } }
    | "member" =>
      { s with
        field := none
        struct := s.struct.map fun d => { d with fields := d.fields ++ [f.field] } }
    | _ => s

/-- The state after an end tag. -/
def closed (s : State) (name : String) : State :=
  match s.field with
  | some f => s.closedInField f name
  | none =>
    match name with
    | "enums" =>
      match s.group with
      | some g => { s with schema := s.schema.addGroup g, group := none }
      | none => s
    | "type" =>
      match s.struct with
      | some d => { s with schema := s.schema.addStruct d, struct := none }
      | none => s
    | "extension" => { s with extension := none }
    | _ => s

/-- The state after an event. -/
def step (s : State) : Markup.Event → Except Fault State
  | .opening tag => s.opened tag
  | .closing name => .ok (s.closed name)
  | .text raw =>
    match Markup.unescape? raw with
    | some cs => .ok { s with field := s.field.map (·.withText (String.ofList cs)) }
    | none => .error .badText

end State

/-! ### Documents -/

/-- A schema with an addition placed in its group, if the group is known. -/
def Addition.place (schema : Schema) (a : Addition) : Schema :=
  match schema.group? a.group with
  | some g =>
    let member := match a.position with
      | some p => { a.member with value := bitValue p g.width }
      | none => a.member
    schema.append a.group [member]
  | none => schema

/-- What a registry declares, and the additions to groups that it does not declare. -/
structure Contents where
  schema : Schema := .of []
  orphans : List Addition := []
  deriving DecidableEq, Repr

/-- The contents of a registry. -/
def read (text : String) : Except Fault Contents :=
  let (events, ending) := Markup.events text.toList
  match events.foldlM State.step {} with
  | .error fault => .error fault
  | .ok s =>
    match ending with
    | .malformed => .error .malformed
    | .unclosed => .error .unclosed
    | .complete =>
      .ok {
        schema := s.additions.foldl Addition.place s.schema
        orphans := s.additions.filter fun a => (s.schema.group? a.group).isNone }

end Enumerant.Registry
