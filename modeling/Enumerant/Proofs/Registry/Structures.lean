import Enumerant.Proofs.Registry.Fields
import Enumerant.Proofs.Registry.Steps

/-!
# Structures of a registry

The element of a structure may stand anywhere in a registry. It is read as it says wherever no field
is being read, and what comes behind it changes nothing about it (`struct_of_element`). No field is
being read at places that no element of a field is around (`field_eq_none_of_leads`): the count of
elements that are passed over is behind a node what it was in front of it
(`ignored_eq_of_foldlM_step`), so every end tag finds what its start tag has left. Within a field,
the element of a structure is one of those that are passed over (`struct?_innerElement_eq_none`).
-/

namespace Enumerant.Registry

open Markup (Node Tag Event eventsAll)

variable {s s' : State} {f : OpenField} {es : List Event}

/-! ### Places outside of fields -/

theorem openBlock_keeps {attrs : Attributes} {isEmpty : Bool}
    (h : s.openBlock attrs isEmpty = .ok s') :
    s'.field = s.field ∧ s'.schema.structs = s.schema.structs := by
  unfold State.openBlock at h
  split at h
  case h_1 => cases h
  case h_2 =>
    cases h
    exact ⟨rfl, rfl⟩
  case h_3 =>
    cases h
    split
    · exact ⟨rfl, Schema.structs_addGroup _ _⟩
    · exact ⟨rfl, rfl⟩

theorem openEntry_keeps {attrs : Attributes} (h : s.openEntry attrs = .ok s') :
    s'.field = s.field ∧ s'.schema.structs = s.schema.structs := by
  unfold State.openEntry at h
  dsimp only at h
  repeat' split at h
  all_goals cases h <;> exact ⟨rfl, rfl⟩

/-- Where no field is being read, only the element of a field begins one, and no tag adds a
structure. -/
theorem opened_of_no_field {tag : Tag} (hs : s.field = none) (h : s.opened tag = .ok s') :
    (s'.field = none ∨
      tag.name = "member" ∧ tag.isEmpty = false ∧ ∃ field, s'.field = some { field }) ∧
    s'.schema.structs = s.schema.structs := by
  cases begins_of_opened hs h with
  | same => exact ⟨.inl hs, rfl⟩
  | block h => exact (openBlock_keeps h).imp_left fun hfield => .inl (hfield.trans hs)
  | entry h => exact (openEntry_keeps h).imp_left fun hfield => .inl (hfield.trans hs)
  | extension number => exact ⟨.inl hs, rfl⟩
  | struct attrs =>
    obtain ⟨struct, heq⟩ := exists_openStruct s attrs
    exact heq ▸ ⟨.inl hs, rfl⟩
  | field attrs htag hfilled => exact ⟨.inr ⟨htag, hfilled, _, rfl⟩, rfl⟩

theorem closed_of_no_field {name : String} (hs : s.field = none) (h : s.closed name = s') :
    s'.field = none ∧ s.schema.structs <+: s'.schema.structs := by
  cases ends_of_closed hs h with
  | same => exact ⟨hs, List.prefix_rfl⟩
  | block => exact ⟨hs, (Schema.structs_addGroup _ _).symm ▸ List.prefix_rfl⟩
  | struct => exact ⟨hs, Schema.structs_prefix_addStruct _ _⟩
  | extension => exact ⟨hs, List.prefix_rfl⟩

/-- An end tag takes back what the start tag has done to the count. -/
theorem ignored_closedInField {g : OpenField} {name : String}
    (h : g.ignored = (f.opened name).ignored) (s : State) :
    (s.closedInField g name).field.map OpenField.ignored = some f.ignored := by
  unfold OpenField.opened at h
  rw [State.closedInField.eq_def]
  split at h
  case isTrue hf =>
    rw [if_neg (by simp [h, hf.1]), hf.2]
    exact congrArg some h
  case isFalse hf =>
    split at h
    case isTrue hf =>
      rw [if_neg (by simp [h, hf.1]), hf.2]
      exact congrArg some h
    case isFalse =>
      rw [if_pos (by simp [h])]
      simp [h]

theorem ignored_eq_of_eventsAll {ns : List Node}
    (hns : ∀ n ∈ ns, ∀ {s s'}, n.events.foldlM State.step s = .ok s' →
      s'.field.map OpenField.ignored = s.field.map OpenField.ignored)
    (h : (eventsAll ns).foldlM State.step s = .ok s') :
    s'.field.map OpenField.ignored = s.field.map OpenField.ignored := by
  induction ns generalizing s with
  | nil =>
    cases h
    rfl
  | cons n ns ih =>
    obtain ⟨hn, hns⟩ := List.forall_mem_cons.mp hns
    rw [Markup.eventsAll_cons] at h
    obtain ⟨t, ht, hrest⟩ := exists_of_foldlM_append h
    exact (ih hns hrest).trans (hn ht)

theorem ignored_withText (f : OpenField) (text : String) :
    (f.withText text).ignored = f.ignored := by
  unfold OpenField.withText
  repeat' split
  all_goals rfl

/-- An element leaves the count as it was if its content does. -/
theorem ignored_closed {tag : Tag} {s₁ s₂ : State} (hopened : s.opened tag = .ok s₁)
    (hfilled : tag.isEmpty = false)
    (hcontent : s₂.field.map OpenField.ignored = s₁.field.map OpenField.ignored) :
    (s₂.closed tag.name).field.map OpenField.ignored = s.field.map OpenField.ignored := by
  cases hs : s.field with
  | none =>
    rcases (opened_of_no_field hs hopened).1 with hnone | ⟨hname, -, field, hfield⟩
    · have hnone₂ : s₂.field = none := by simpa [hnone] using hcontent
      rw [(closed_of_no_field hnone₂ rfl).1]
    · -- the element of a field: what is being read since ends with it
      obtain ⟨g, hg, hzero⟩ : ∃ g, s₂.field = some g ∧ g.ignored = 0 := by
        simpa [hfield] using hcontent
      rw [closed_of_field hg, hname]
      simp [State.closedInField, hzero]
  | some f =>
    rw [opened_of_field hs hopened, hfilled] at hcontent
    obtain ⟨g, hg, hcount⟩ :
        ∃ g, s₂.field = some g ∧ g.ignored = (f.opened tag.name).ignored := by
      simpa using hcontent
    rw [closed_of_field hg]
    exact ignored_closedInField hcount s₂

/-- **Nodes leave the count as it was**, whether a field is being read or not. -/
theorem ignored_eq_of_foldlM_step (n : Node) (h : n.events.foldlM State.step s = .ok s') :
    s'.field.map OpenField.ignored = s.field.map OpenField.ignored := by
  induction n generalizing s s' with
  | text raw =>
    obtain ⟨t, ht, hnil⟩ := exists_of_foldlM_cons h
    cases hnil
    obtain ⟨text, rfl⟩ := exists_of_step_text ht
    simp [Function.comp_def, ignored_withText]
  | empty name attributes =>
    obtain ⟨t, ht, hnil⟩ := exists_of_foldlM_cons h
    cases hnil
    cases hs : s.field with
    | none =>
      rcases (opened_of_no_field hs ht).1 with hnone | ⟨-, hfilled, -⟩
      · rw [hnone]
      · cases hfilled
    | some f => rw [opened_of_field hs ht, if_pos rfl, hs]
  | element name attributes content ih =>
    obtain ⟨s₁, hopening, h⟩ := exists_of_foldlM_cons h
    obtain ⟨s₂, hcontent, hclosing⟩ := exists_of_foldlM_append h
    cases hclosing
    exact ignored_closed hopening rfl (ignored_eq_of_eventsAll ih hcontent)

/-- Where no element of a field is around a place, no field is being read there. -/
theorem field_eq_none_of_leads {ns : List Node} {front : List Event} {path : List String}
    (hleads : Markup.Leads ns front path) (hpath : "member" ∉ path) (hs : s.field = none)
    (h : front.foldlM State.step s = .ok s') : s'.field = none := by
  have hbefore : ∀ {before : List Node} {s s' : State}, s.field = none →
      (eventsAll before).foldlM State.step s = .ok s' → s'.field = none := by
    intro before s s' hs h
    have hkept := ignored_eq_of_eventsAll (fun n _ => ignored_eq_of_foldlM_step n) h
    simpa [hs] using hkept
  induction hleads generalizing s with
  | here before after => exact hbefore hs h
  | inside before after name attributes _ ih =>
    obtain ⟨hname, hpath⟩ := List.ne_and_not_mem_of_not_mem_cons hpath
    obtain ⟨s₁, hs₁, h⟩ := exists_of_foldlM_append h
    obtain ⟨s₂, hs₂, h⟩ := exists_of_foldlM_cons h
    refine ih hpath ?_ h
    rcases (opened_of_no_field (hbefore hs hs₁) hs₂).1 with hnone | ⟨hmember, -⟩
    · exact hnone
    · exact absurd hmember.symm hname

/-! ### Documents -/

/-- Structures that have been read stay what they are. -/
theorem structs_prefix_of_step {e : Event} (h : s.step e = .ok s') :
    s.schema.structs <+: s'.schema.structs := by
  cases e with
  | opening tag =>
    cases hs : s.field with
    | none => exact (opened_of_no_field hs h).2.symm ▸ List.prefix_rfl
    | some f =>
      rw [opened_of_field hs h]
      split <;> exact List.prefix_rfl
  | closing name =>
    cases h
    cases hs : s.field with
    | none => exact (closed_of_no_field hs rfl).2
    | some f =>
      obtain ⟨struct, field, heq⟩ := exists_closedInField s f name
      have hstructs : (s.closed name).schema.structs = s.schema.structs := by
        rw [closed_of_field hs, heq]
      exact hstructs.symm ▸ List.prefix_rfl
  | text raw =>
    obtain ⟨text, rfl⟩ := exists_of_step_text h
    exact List.prefix_rfl

theorem structs_prefix_of_foldlM_step (h : es.foldlM State.step s = .ok s') :
    s.schema.structs <+: s'.schema.structs :=
  foldlM_keeps (P := fun t => s.schema.structs <+: t.schema.structs)
    (fun ht h => ht.trans (structs_prefix_of_step h)) List.prefix_rfl h

theorem structs_foldl_place (additions : List Addition) (schema : Schema) :
    (additions.foldl Addition.place schema).structs = schema.structs := by
  induction additions generalizing schema with
  | nil => rfl
  | cons a additions ih =>
    rw [List.foldl_cons, ih]
    unfold Addition.place
    split
    · exact Schema.structs_append _ _ _
    · rfl

/-- Where no field is being read, as at all places that no element of a field is around, **the
element of a structure is read as it says**. Of structures with one name the first counts. -/
theorem struct_of_element {text : String} {front back : List Event} {e : StructElement}
    (hevents : Markup.events text.toList = (front ++ e.node.events ++ back, .complete))
    (hreadable : Readable e.node.events) (hfront : front.foldlM State.step {} = .ok s) :
    (∀ ns path, Markup.Leads ns front path → "member" ∉ path → s.field = none) ∧
    (s.field = none →
      e.node.events.foldlM State.step s =
        .ok { s with schema := s.schema.addStruct e.struct, struct := none } ∧
      ∀ contents, read text = .ok contents →
        contents.schema.struct? e.name = some ((s.schema.struct? e.name).getD e.struct)) := by
  refine ⟨fun ns path hleads hpath => field_eq_none_of_leads hleads hpath rfl hfront, fun hs => ?_⟩
  have helement := e.foldlM_step hreadable hs
  refine ⟨helement, fun contents hread => ?_⟩
  have hrun : (front ++ e.node.events).foldlM State.step {} = .ok _ :=
    (foldlM_append_of_ok hfront _).trans helement
  rw [read, hevents] at hread
  dsimp only at hread
  rw [foldlM_append_of_ok hrun] at hread
  split at hread
  case h_1 => cases hread
  case h_2 t ht =>
    -- what follows the element, and the additions, put nothing in front of what is there
    cases hread
    have hstructs := structs_prefix_of_foldlM_step ht
    rw [← structs_foldl_place t.additions t.schema] at hstructs
    have hstruct := s.schema.struct?_addStruct e.struct
    rw [Schema.struct?_eq_find?] at hstruct ⊢
    exact hstructs.find?_eq_some hstruct

/-! ### A structure with much else in it -/

/-- A structure in whose first field the names of parts stand for other things, too. -/
def infoRegistry : String :=
  "<types><type category=\"struct\" name=\"Info\">" ++
    "<member optional=\"true,false\" values=\"V\">const <type>void</type>* <name>next</name>" ++
    "<comment>no <type>int</type> * <name>here</name><member>at all</member></comment></member>" ++
    "<member><type>uint</type> <name>si</name><name/><name>ze</name></member></type></types>"

/-- The element of the structure in `infoRegistry`. -/
def infoElement : StructElement where
  written := " category=\"struct\" name=\"Info\"".toList
  attributes := [("category", "struct"), ("name", "Info")]
  name := "Info"
  members := [
    ⟨" optional=\"true,false\" values=\"V\"".toList, [("optional", "true,false"), ("values", "V")],
      [.text "const".toList, .child .typeName [] ["void".toList], .text "*".toList,
        .child .name [] ["next".toList],
        .other "comment" [] [
          .text "no".toList, .element "type" [] [.text "int".toList], .text "*".toList,
          .element "name" [] [.text "here".toList],
          .element "member" [] [.text "at all".toList]] (by decide)],
      by decide +kernel⟩,
    ⟨[], [], [.child .typeName [] ["uint".toList], .child .name [] ["si".toList], .empty "name" [],
      .child .name [] ["ze".toList]], by decide +kernel⟩]
  reads := by decide +kernel
  isStruct := rfl
  noAlias := rfl
  named := rfl

theorem events_infoRegistry : Markup.events infoRegistry.toList =
    ([.opening ⟨"types", [], false⟩] ++ infoElement.node.events ++ [.closing "types"],
      .complete) := by
  unfold infoRegistry
  iterate 3 rewrite [String.toList_append]
  repeat rewrite [String.toList_ofList]
  decide +kernel

/-- The fields of `Info` are made of their own parts: what stands within the comment does not count,
and pieces of a name are put together. -/
theorem struct_of_infoElement :
    Markup.events infoRegistry.toList =
      ([.opening ⟨"types", [], false⟩] ++ infoElement.node.events ++ [.closing "types"],
        .complete) ∧
    Readable infoElement.node.events ∧
    ([.opening ⟨"types", [], false⟩] : List Event).foldlM State.step {} = .ok {} ∧
    Markup.Leads [.element "types" [] [infoElement.node]] [.opening ⟨"types", [], false⟩]
      ["types"] ∧
    infoElement.node.events.foldlM State.step {} = .ok { schema := { structs := [⟨"Info", [
      ⟨"next", "void", true, true, some "V"⟩, ⟨"size", "uint", false, false, none⟩]⟩] } } := by
  have hreadable : Readable infoElement.node.events := by decide +kernel
  have hfront : ([.opening ⟨"types", [], false⟩] : List Event).foldlM State.step {} = .ok {} := rfl
  have hleads : Markup.Leads [.element "types" [] [infoElement.node]]
      [.opening ⟨"types", [], false⟩] ["types"] :=
    .inside [] [] "types" [] (.here [] [infoElement.node])
  obtain ⟨hplace, hread⟩ := struct_of_element events_infoRegistry hreadable hfront
  refine ⟨events_infoRegistry, hreadable, hfront, hleads, ?_⟩
  rw [(hread (hplace _ _ hleads (by decide))).1]
  decide +kernel

/-! ### A structure within a field -/

/-- A structure in the element of a field of another one. -/
def nestedRegistry : String :=
  "<type category=\"struct\" name=\"Outer\"><member>" ++
    "<type category=\"struct\" name=\"Inner\"><member><name>x</name></member></type>" ++
    "</member></type>"

/-- The element of the inner structure in `nestedRegistry`. -/
def innerElement : StructElement where
  written := " category=\"struct\" name=\"Inner\"".toList
  attributes := [("category", "struct"), ("name", "Inner")]
  name := "Inner"
  members := [⟨[], [], [.child .name [] ["x".toList]], by decide +kernel⟩]
  reads := by decide +kernel
  isStruct := rfl
  noAlias := rfl
  named := rfl

theorem events_nestedRegistry : Markup.events nestedRegistry.toList =
    ([.opening ⟨"type", " category=\"struct\" name=\"Outer\"".toList, false⟩,
      .opening ⟨"member", [], false⟩] ++ innerElement.node.events ++
        [.closing "member", .closing "type"], .complete) := by
  unfold nestedRegistry
  iterate 2 rewrite [String.toList_append]
  repeat rewrite [String.toList_ofList]
  decide +kernel

/-- An element of a structure is none while a field is being read. -/
theorem struct?_innerElement_eq_none :
    (∃ front back, Markup.events nestedRegistry.toList =
      (front ++ innerElement.node.events ++ back, .complete)) ∧
    Readable innerElement.node.events ∧
    innerElement.struct = ⟨"Inner", [{ name := "x" }]⟩ ∧
    ∃ contents, read nestedRegistry = .ok contents ∧
      contents.schema.struct? innerElement.name = none := by
  have hreadable : Readable innerElement.node.events := by decide +kernel
  have hread : read nestedRegistry =
      .ok { schema := { structs := [⟨"Outer", [{}]⟩] } } := by
    rw [read, events_nestedRegistry]
    decide +kernel
  exact ⟨⟨_, _, events_nestedRegistry⟩, hreadable, by decide +kernel, _, hread, by decide⟩

end Enumerant.Registry
