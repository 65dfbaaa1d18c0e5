import Enumerant.Proofs.Markup.Tree
import Enumerant.Proofs.Result
import Enumerant.Proofs.Schema
import Enumerant.Registry.Reading

/-!
# Fields of a structure

The element of a structure has one element for each of its fields, and what these say about a field
is scattered over text, children and attributes. It is read event by event, with the child whose
text is being read and a count of the elements that are passed over. The count is what carries the
proof: while it is above zero, nodes change nothing (`foldlM_step_of_ignored`), whatever the names
of the elements in them. So a field comes out as its element says (`FieldElement.foldlM_step`), and
a structure has the fields of its elements (`StructElement.foldlM_step`).
-/

namespace Enumerant.Registry

open Markup (Node Tag Event eventsAll)

/-! ### Elements -/

/-- The name of the element of a part. -/
def Part.element : Part → String
  | typeName => "type"
  | name => "name"

/-- A piece of the content of a field's element. -/
inductive Piece where
  | text (raw : List Char)
  /-- An element of a part, with texts in it and nothing else. -/
  | child (part : Part) (attributes : List Char) (texts : List (List Char))
  | empty (name : String) (attributes : List Char)
  /-- An element of another name, with anything in it. -/
  | other (name : String) (attributes : List Char) (content : List Node)
    (hname : name ∉ ["type", "name"])

/-- The node that a piece is. -/
def Piece.node : Piece → Node
  | text raw => .text raw
  | child part attributes texts => .element part.element attributes (texts.map .text)
  | empty name attributes => .empty name attributes
  | other name attributes content _ => .element name attributes content

/-- The element of a field, with its attributes as they are written and as they are read. -/
structure FieldElement where
  written : List Char
  attributes : Attributes
  content : List Piece
  reads : attributesOf ⟨"member", written, false⟩ = .ok attributes

/-- The element of a structure, with elements of fields in it and nothing else. -/
structure StructElement where
  written : List Char
  attributes : Attributes
  name : String
  members : List FieldElement
  reads : attributesOf ⟨"type", written, false⟩ = .ok attributes
  isStruct : attributes.lookup "category" = some "struct"
  noAlias : attributes.lookup "alias" = none
  named : attributes.lookup "name" = some name

def FieldElement.node (e : FieldElement) : Node :=
  .element "member" e.written (e.content.map Piece.node)

def StructElement.node (e : StructElement) : Node :=
  .element "type" e.written (e.members.map FieldElement.node)

/-- Whether all references in the text of an event stand for something. -/
def isReadable : Event → Bool
  | .text raw => (Markup.unescape? raw).isSome
  | _ => true

/-- All references in texts stand for something. -/
def Readable (es : List Event) : Prop :=
  ∀ e ∈ es, isReadable e

instance (es : List Event) : Decidable (Readable es) :=
  inferInstanceAs (Decidable (∀ e ∈ es, isReadable e = true))

/-! ### What elements say -/

/-- A text with its references replaced. -/
def textOf (raw : List Char) : String :=
  String.ofList ((Markup.unescape? raw).getD [])

/-- The texts in elements of a part. -/
def Piece.textsIn (part : Part) : Piece → List String
  | .child p _ texts => if p = part then texts.map textOf else []
  | _ => []

/-- All texts in elements of a part, one after another. -/
def textIn (part : Part) (content : List Piece) : String :=
  String.join (content.flatMap (·.textsIn part))

/-- A text with a star in it. -/
def Piece.isStarred : Piece → Bool
  | .text raw => (textOf raw).toList.contains '*'
  | _ => false

/-- A value of which the part before the first comma is `true`. -/
def SaysTrue (value : String) : Prop :=
  value = "true" ∨ "true,".toList <+: value.toList

instance (value : String) : Decidable (SaysTrue value) :=
  inferInstanceAs (Decidable (_ ∨ _))

/-- The field that an element describes. -/
def FieldElement.field (e : FieldElement) : Field where
  name := textIn .name e.content
  typeName := textIn .typeName e.content
  isPointer := e.content.any Piece.isStarred
  isOptional := (e.attributes.lookup "optional").any fun value => SaysTrue value
  fixed := e.attributes.lookup "values"

/-- The structure that an element describes. -/
def StructElement.struct (e : StructElement) : Struct :=
  ⟨e.name, e.members.map FieldElement.field⟩

/-! ### Texts and runs -/

variable {s s' : State} {f : OpenField} {field : Field} {es fs : List Event} {raw : List Char}

@[simp]
theorem readable_nil : Readable [] :=
  fun _ h => absurd h List.not_mem_nil

@[simp]
theorem readable_cons_text :
    Readable (.text raw :: es) ↔ (Markup.unescape? raw).isSome ∧ Readable es := by
  simp [Readable, isReadable]

@[simp]
theorem readable_cons_opening {tag : Tag} : Readable (.opening tag :: es) ↔ Readable es := by
  simp [Readable, isReadable]

@[simp]
theorem readable_cons_closing {name : String} : Readable (.closing name :: es) ↔ Readable es := by
  simp [Readable, isReadable]

/-- Events are readable part by part. -/
@[simp]
theorem readable_append : Readable (es ++ fs) ↔ Readable es ∧ Readable fs := by
  simp [Readable, or_imp, forall_and]

/-- Nodes are readable one by one. -/
theorem readable_eventsAll {ns : List Node} :
    Readable (eventsAll ns) ↔ ∀ n ∈ ns, Readable n.events := by
  induction ns with
  | nil => simp
  | cons n ns ih => simp [ih]

/-- A text is taken by the field that is open, if any. -/
theorem step_text (h : (Markup.unescape? raw).isSome) (s : State) :
    s.step (.text raw) = .ok { s with field := s.field.map (·.withText (textOf raw)) } := by
  obtain ⟨cs, hcs⟩ := Option.isSome_iff_exists.mp h
  rw [State.step, textOf, hcs]
  rfl

/-! ### Elements that are passed over -/

/-- Texts in elements that are passed over are, too. -/
theorem withText_of_ignored (h : 0 < f.ignored) (text : String) : f.withText text = f := by
  rw [OpenField.withText, if_pos h]

/-- Elements in such elements only count. -/
theorem opened_of_ignored (h : 0 < f.ignored) (name : String) :
    f.opened name = { f with ignored := f.ignored + 1 } := by
  have hne : f.ignored ≠ 0 := Nat.ne_of_gt h
  simp [OpenField.opened, hne]

/-- Their ends count back. -/
theorem closedInField_of_ignored (h : 0 < f.ignored) (s : State) (name : String) :
    s.closedInField f name = { s with field := some { f with ignored := f.ignored - 1 } } := by
  rw [State.closedInField.eq_def, if_pos h]

/-- Nodes that each leave the state alone do so together. -/
theorem foldlM_step_eventsAll {ns : List Node}
    (h : ∀ n ∈ ns, n.events.foldlM State.step s = .ok s) :
    (eventsAll ns).foldlM State.step s = .ok s := by
  induction ns with
  | nil => rfl
  | cons n ns ih =>
    obtain ⟨hn, hns⟩ := List.forall_mem_cons.mp h
    rw [Markup.eventsAll_cons, foldlM_append_of_ok hn]
    exact ih hns

/-- An element whose content is passed over is passed over. -/
theorem foldlM_step_element {content : List Node} {name : String} (attributes : List Char)
    (hopened : f.opened name = { f with ignored := f.ignored + 1 })
    (hcontent : ∀ n ∈ content, n.events.foldlM State.step
      { s with field := some { f with ignored := f.ignored + 1 } } =
        .ok { s with field := some { f with ignored := f.ignored + 1 } }) :
    (Node.element name attributes content).events.foldlM State.step { s with field := some f } =
      .ok { s with field := some f } := by
  have hopening : ({ s with field := some f } : State).step (.opening ⟨name, attributes, false⟩) =
      .ok { s with field := some { f with ignored := f.ignored + 1 } } := by
    rw [← hopened]
    rfl
  -- the count is above zero here, so the end tag takes one off whatever its name is
  have hclosing : ({ s with field := some { f with ignored := f.ignored + 1 } } : State).step
      (.closing name) = .ok { s with field := some f } :=
    congrArg Except.ok (closedInField_of_ignored (Nat.succ_pos _) _ name)
  rw [Node.events, foldlM_cons_of_ok hopening,
    foldlM_append_of_ok (foldlM_step_eventsAll hcontent)]
  exact foldlM_cons_of_ok hclosing []

/-- **What is passed over has no influence.** -/
theorem foldlM_step_of_ignored (n : Node) (hf : 0 < f.ignored) (hn : Readable n.events) :
    n.events.foldlM State.step { s with field := some f } = .ok { s with field := some f } := by
  induction n generalizing f with
  | text raw =>
    have htext := step_text (readable_cons_text.mp hn).1 { s with field := some f }
    rw [Option.map_some, withText_of_ignored hf] at htext
    exact foldlM_cons_of_ok htext []
  | empty name attributes => rfl
  | element name attributes content ih =>
    have hcontent : ∀ n ∈ content, Readable n.events := by
      simpa [Node.events, readable_eventsAll] using hn
    exact foldlM_step_element attributes (opened_of_ignored hf name)
      fun n hmem => ih n hmem (Nat.succ_pos _) (hcontent n hmem)

/-! ### Elements of a field -/

/-- A field with more text of a part. -/
def withPart (field : Field) : Part → String → Field
  | .typeName, text => { field with typeName := field.typeName ++ text }
  | .name, text => { field with name := field.name ++ text }

/-- A field with what pieces of content say about it. -/
def withContent (field : Field) (content : List Piece) : Field :=
  { field with
    name := field.name ++ textIn .name content
    typeName := field.typeName ++ textIn .typeName content
    isPointer := field.isPointer || content.any Piece.isStarred }

theorem withContent_nil (field : Field) : withContent field [] = field := by
  simp [withContent, textIn]

theorem withContent_cons (field : Field) (p : Piece) (ps : List Piece) :
    withContent field (p :: ps) = withContent (withContent field [p]) ps := by
  simp [withContent, textIn, String.join_append, String.append_assoc, Bool.or_assoc]

/-- A text outside of the elements of parts says whether there is a star. -/
theorem withText_of_no_part (field : Field) (raw : List Char) :
    ({ field } : OpenField).withText (textOf raw) = { field := withContent field [.text raw] } := by
  have hcontent : withContent field [.text raw] =
      { field with isPointer := field.isPointer || (textOf raw).toList.contains '*' } := by
    simp [withContent, textIn, Piece.textsIn, Piece.isStarred]
  rw [hcontent]
  unfold OpenField.withText
  cases (textOf raw).toList.contains '*' <;> simp

/-- The texts of a part are joined. -/
theorem withContent_child (field : Field) (part : Part) (attributes : List Char)
    (texts : List (List Char)) :
    withContent field [.child part attributes texts] =
      withPart field part (String.join (texts.map textOf)) := by
  cases part <;> simp [withContent, withPart, textIn, Piece.textsIn, Piece.isStarred]

/-- Texts within the element of a part are put behind what is there of it. -/
theorem foldlM_step_texts {texts : List (List Char)}
    (h : Readable (eventsAll (texts.map .text))) (s : State) (field : Field) (part : Part) :
    (eventsAll (texts.map .text)).foldlM State.step { s with field := some ⟨field, some part, 0⟩ } =
      .ok { s with
        field := some ⟨withPart field part (String.join (texts.map textOf)), some part, 0⟩ } := by
  induction texts generalizing field with
  | nil => cases part <;> simp [withPart] <;> rfl
  | cons raw texts ih =>
    rw [List.map_cons, Markup.eventsAll_cons, Node.events] at h ⊢
    obtain ⟨hraw, htexts⟩ := readable_cons_text.mp h
    have htext := step_text hraw { s with field := some ⟨field, some part, 0⟩ }
    refine (foldlM_cons_of_ok htext _).trans ?_
    cases part with
    | typeName =>
      refine (ih htexts _).trans ?_
      simp [withPart, String.append_assoc]
    | name =>
      refine (ih htexts _).trans ?_
      simp [withPart, String.append_assoc]

/-- An element of a part adds its texts to the part. -/
theorem foldlM_step_child {texts : List (List Char)}
    (h : Readable (eventsAll (texts.map .text))) (s : State) (field : Field) (part : Part)
    (attributes : List Char) :
    (Piece.child part attributes texts).node.events.foldlM State.step
      { s with field := some { field } } =
        .ok { s with
          field := some { field := withPart field part (String.join (texts.map textOf)) } } := by
  have hopening : ({ s with field := some { field } } : State).step
      (.opening ⟨part.element, attributes, false⟩) =
        .ok { s with field := some ⟨field, some part, 0⟩ } := by
    cases part <;> rfl
  rw [Piece.node, Node.events, foldlM_cons_of_ok hopening,
    foldlM_append_of_ok (foldlM_step_texts h s field part)]
  cases part <;> rfl

/-- A piece adds to the field what it says, and leaves nothing open in it. -/
theorem Piece.foldlM_step {p : Piece} (h : Readable p.node.events) (s : State) (field : Field) :
    p.node.events.foldlM State.step { s with field := some { field } } =
      .ok { s with field := some { field := withContent field [p] } } := by
  cases p with
  | text raw =>
    have htext := step_text (readable_cons_text.mp h).1 { s with field := some { field } }
    rw [Option.map_some, withText_of_no_part] at htext
    exact foldlM_cons_of_ok htext []
  | child part attributes texts =>
    have htexts : Readable (eventsAll (texts.map .text)) := by
      simpa [node, Node.events] using h
    rw [withContent_child]
    exact foldlM_step_child htexts s field part attributes
  | empty name attributes =>
    have hcontent : withContent field [.empty name attributes] = field := by
      simp [withContent, textIn, textsIn, isStarred]
    rw [hcontent]
    rfl
  | other name attributes content hname =>
    have hcontent : withContent field [.other name attributes content hname] = field := by
      simp [withContent, textIn, textsIn, isStarred]
    have hreadable : ∀ n ∈ content, Readable n.events := by
      simpa [node, Node.events, readable_eventsAll] using h
    have hopened : ({ field } : OpenField).opened name = { field, ignored := 1 } := by
      simp only [List.mem_cons, List.not_mem_nil, or_false, not_or] at hname
      simp [OpenField.opened, hname]
    rw [hcontent]
    exact foldlM_step_element attributes hopened
      fun n hn => foldlM_step_of_ignored n Nat.one_pos (hreadable n hn)

/-- The content of a field is read piece by piece. -/
theorem foldlM_step_content {content : List Piece}
    (h : Readable (eventsAll (content.map Piece.node))) (s : State) (field : Field) :
    (eventsAll (content.map Piece.node)).foldlM State.step { s with field := some { field } } =
      .ok { s with field := some { field := withContent field content } } := by
  induction content generalizing field with
  | nil =>
    rw [withContent_nil]
    rfl
  | cons p ps ih =>
    rw [List.map_cons, Markup.eventsAll_cons] at h ⊢
    obtain ⟨hp, hps⟩ := readable_append.mp h
    rw [foldlM_append_of_ok (Piece.foldlM_step hp s field), withContent_cons field p ps]
    exact ih hps _

/-- What stands in front of the first comma decides whether a field is optional. -/
theorem takeWhile_comma_iff (value : String) :
    value.toList.takeWhile (· != ',') = "true".toList ↔ SaysTrue value := by
  constructor
  · intro h
    have hsplit : "true".toList ++ value.toList.dropWhile (· != ',') = value.toList :=
      h ▸ List.takeWhile_append_dropWhile
    have hhead := List.head?_dropWhile_not (· != ',') value.toList
    cases hrest : value.toList.dropWhile (· != ',') with
    | nil =>
      rw [hrest, List.append_nil] at hsplit
      exact .inl (String.toList_inj.mp hsplit).symm
    | cons c cs =>
      rw [hrest] at hsplit hhead
      obtain rfl : c = ',' := by simpa using hhead
      exact .inr ⟨cs, hsplit⟩
  · rintro (rfl | ⟨cs, hcs⟩)
    · decide
    · rw [← hcs]
      rfl

/-- A field is opened with what its attributes say. -/
theorem openField_eq (s : State) (attrs : Attributes) :
    s.openField attrs = { s with
      field := some { field := {
        isOptional := (attrs.lookup "optional").any fun value => SaysTrue value
        fixed := attrs.lookup "values" } } } := by
  rw [State.openField]
  cases attrs.lookup "optional" with
  | none => rfl
  | some value => simpa using takeWhile_comma_iff value

theorem withContent_eq_field (e : FieldElement) :
    withContent {
      isOptional := (e.attributes.lookup "optional").any fun value => SaysTrue value
      fixed := e.attributes.lookup "values" } e.content = e.field := by
  simp [withContent, FieldElement.field]

/-- Within a structure, the element of a field puts the field behind those that are there. -/
theorem FieldElement.foldlM_step {e : FieldElement} {d : Struct} (h : Readable e.node.events)
    (hs : s.field = none) (hstruct : s.struct = some d) :
    e.node.events.foldlM State.step s =
      .ok { s with struct := some { d with fields := d.fields ++ [e.field] } } := by
  have hcontent : Readable (eventsAll (e.content.map Piece.node)) := by
    simpa [node, Node.events] using h
  have hopening : s.step (.opening ⟨"member", e.written, false⟩) =
      .ok (s.openField e.attributes) := by
    simp [State.step, State.opened, hs, hstruct, e.reads]
  rw [node, Node.events, foldlM_cons_of_ok hopening, openField_eq,
    foldlM_append_of_ok (foldlM_step_content hcontent s _), withContent_eq_field]
  obtain ⟨schema, additions, group, extension, struct, field⟩ := s
  cases hs
  cases hstruct
  rfl

/-! ### Elements of structures -/

/-- The fields of a struct are read one after another. -/
theorem FieldElement.foldlM_step_all {members : List FieldElement} {d : Struct}
    (h : Readable (eventsAll (members.map FieldElement.node))) (hs : s.field = none)
    (hstruct : s.struct = some d) :
    (eventsAll (members.map FieldElement.node)).foldlM State.step s =
      .ok { s with
        struct := some { d with fields := d.fields ++ members.map FieldElement.field } } := by
  induction members generalizing s d with
  | nil =>
    obtain ⟨schema, additions, group, extension, struct, field⟩ := s
    cases hstruct
    rw [List.map_nil, List.map_nil, List.append_nil]
    rfl
  | cons e members ih =>
    rw [List.map_cons, Markup.eventsAll_cons] at h ⊢
    obtain ⟨he, hmembers⟩ := readable_append.mp h
    have hafter := ih (s := { s with struct := some { d with fields := d.fields ++ [e.field] } })
      hmembers hs rfl
    rw [foldlM_append_of_ok (foldlM_step he hs hstruct), hafter, List.append_assoc]
    rfl

/-- **Fields are read as their elements say.** Where no field is being read, the element of a
structure adds the structure that it describes. -/
theorem StructElement.foldlM_step {e : StructElement} (h : Readable e.node.events)
    (hs : s.field = none) :
    e.node.events.foldlM State.step s =
      .ok { s with schema := s.schema.addStruct e.struct, struct := none } := by
  have hmembers : Readable (eventsAll (e.members.map FieldElement.node)) := by
    simpa [node, Node.events] using h
  have hopening : s.step (.opening ⟨"type", e.written, false⟩) =
      .ok { s with struct := some ⟨e.name, []⟩ } := by
    simp [State.step, State.opened, hs, e.reads, State.openStruct, e.isStruct, e.noAlias, e.named]
  have hrun : (eventsAll (e.members.map FieldElement.node)).foldlM State.step
      { s with struct := some ⟨e.name, []⟩ } = .ok { s with struct := some e.struct } :=
    FieldElement.foldlM_step_all (s := { s with struct := some ⟨e.name, []⟩ }) hmembers hs rfl
  have hclosing : ({ s with struct := some e.struct } : State).step (.closing "type") =
      .ok { s with schema := s.schema.addStruct e.struct, struct := none } := by
    simp [State.step, State.closed, hs]
  rw [node, Node.events, foldlM_cons_of_ok hopening, foldlM_append_of_ok hrun]
  exact foldlM_cons_of_ok hclosing []

end Enumerant.Registry
