import Enumerant.Registry.Reading

/-!
# What tags do

While a field is being read, a tag concerns nothing else (`opened_of_field`). Anywhere else it does
one of a few things, as its name and its attributes say (`Begins`), and so does an end tag (`Ends`).
Whatever holds of a state throughout a registry is proved along these cases.
-/

namespace Enumerant.Registry

open Markup (Tag)

/-- What a tag can do where no field is being read. -/
inductive Begins (s : State) (tag : Tag) : State → Prop
  | same : Begins s tag s
  | block {attrs : Attributes} {s' : State} (h : s.openBlock attrs tag.isEmpty = .ok s') :
    Begins s tag s'
  | entry {attrs : Attributes} {s' : State} (h : s.openEntry attrs = .ok s') : Begins s tag s'
  | extension (number : Option Int) : Begins s tag { s with extension := number }
  | struct (attrs : Attributes) : Begins s tag (s.openStruct attrs)
  | field (attrs : Attributes) (htag : tag.name = "member") (hfilled : tag.isEmpty = false) :
    Begins s tag (s.openField attrs)

/-- What an end tag can do where no field is being read. -/
inductive Ends (s : State) : State → Prop
  | same : Ends s s
  | block {g : Group} (h : s.group = some g) :
    Ends s { s with schema := s.schema.addGroup g, group := none }
  | struct {d : Struct} (h : s.struct = some d) :
    Ends s { s with schema := s.schema.addStruct d, struct := none }
  | extension : Ends s { s with extension := none }

variable {s s' : State} {f : OpenField} {tag : Tag}

theorem opened_of_field (hs : s.field = some f) (h : s.opened tag = .ok s') :
    s' = if tag.isEmpty then s else { s with field := some (f.opened tag.name) } := by
  rw [State.opened, hs] at h
  exact (Except.ok.inj h).symm

theorem begins_of_opened (hs : s.field = none) (h : s.opened tag = .ok s') : Begins s tag s' := by
  unfold State.opened at h
  split at h
  case h_1 f hf => cases hs.symm.trans hf
  case h_2 =>
    -- The cases are the names of elements: blocks, entries, extensions, features, types, members.
    dsimp only at h
    split at h
    case h_1 =>
      split at h
      · exact .block h
      · cases h
    case h_2 =>
      split at h
      · exact .entry h
      · cases h
    case h_3 =>
      split at h <;> cases h
      exact .extension _
    case h_4 =>
      cases h
      exact .extension none
    case h_5 =>
      repeat' split at h
      all_goals cases h
      · exact .same
      · exact .struct _
    case h_6 htag =>
      split at h
      case isTrue =>
        cases h
        exact .same
      case isFalse hopen =>
        have hfilled : tag.isEmpty = false :=
          Bool.eq_false_iff.mpr fun hempty => hopen (.inl hempty)
        split at h <;> cases h
        exact .field _ htag hfilled
    case h_7 =>
      cases h
      exact .same

theorem ends_of_closed {name : String} (hs : s.field = none) (h : s.closed name = s') :
    Ends s s' := by
  rw [← h]
  unfold State.closed
  split
  case h_1 f hf => cases hs.symm.trans hf
  case h_2 =>
    split
    case h_1 =>
      split
      case h_1 g hg => exact .block hg
      case h_2 => exact .same
    case h_2 =>
      split
      case h_1 d hd => exact .struct hd
      case h_2 => exact .same
    case h_3 => exact .extension
    case h_4 => exact .same

theorem closed_of_field (hs : s.field = some f) (name : String) :
    s.closed name = s.closedInField f name := by
  rw [State.closed.eq_def, hs]

/-! ### What is left as it was -/

theorem exists_openStruct (s : State) (attrs : Attributes) :
    ∃ struct, s.openStruct attrs = { s with struct := struct } := by
  unfold State.openStruct
  split
  · exact ⟨_, rfl⟩
  · exact ⟨s.struct, rfl⟩

theorem exists_closedInField (s : State) (f : OpenField) (name : String) :
    ∃ struct field, s.closedInField f name = { s with struct := struct, field := field } := by
  unfold State.closedInField
  repeat' split
  all_goals exact ⟨_, _, rfl⟩

theorem exists_of_step_text {raw : List Char} (h : s.step (.text raw) = .ok s') :
    ∃ text, s' = { s with field := s.field.map (·.withText text) } := by
  unfold State.step at h
  dsimp only at h
  split at h <;> cases h
  exact ⟨_, rfl⟩

end Enumerant.Registry
