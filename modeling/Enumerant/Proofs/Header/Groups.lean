import Enumerant.Proofs.Header.Steps
import Enumerant.Proofs.Schema

/-!
# Groups of a header

A schema has one group of each name that a header declares. `collects_schemaOf` says what it is: the
first declaration of the name, with the members of all declarations behind one another. Kind and
width are those of the first declaration, whatever the later ones are like.
-/

namespace Enumerant

namespace Header

variable {items : List Item} {gs : List Group} {g : Group} {name : String} {s : Schema}

/-! ### Declarations of a name -/

/-- The declarations of a name among items, in order. -/
def declarations (items : List Item) (name : String) : List Group :=
  items.filterMap fun
    | .group g => if g.name = name then some g else none
    | .anonymous | .bodiless _ _ => none

theorem mem_declarations : g ∈ declarations items name ↔ .group g ∈ items ∧ g.name = name := by
  simp only [declarations, List.mem_filterMap]
  constructor
  · rintro ⟨item, hitem, h⟩
    split at h
    · simp only [Option.ite_none_right_eq_some, Option.some_inj] at h
      obtain ⟨hname, rfl⟩ := h
      exact ⟨hitem, hname⟩
    · cases h
    · cases h
  · rintro ⟨hitem, hname⟩
    exact ⟨_, hitem, by simp [hname]⟩

theorem declarations_append_group (items : List Item) (g : Group) (name : String) :
    declarations (items ++ [.group g]) name =
      declarations items name ++ if g.name = name then [g] else [] := by
  rw [declarations, List.filterMap_append, ← declarations]
  split <;> simp [*]

/-- What groups have to do with the items that they come from. -/
structure Collects (items : List Item) (gs : List Group) : Prop where
  nodup : (gs.map Group.name).Nodup
  declared : ∀ g ∈ gs, ∃ first later, declarations items g.name = first :: later ∧
    g = { first with members := (first :: later).flatMap Group.members }
  complete : ∀ name, declarations items name ≠ [] → ∃ g ∈ gs, g.name = name

/-- Declarations among items with one more group at the end. -/
theorem declares_append_group (hne : declarations (items ++ [.group g]) name ≠ []) :
    g.name = name ∨ declarations items name ≠ [] := by
  by_cases hg : g.name = name
  · exact .inl hg
  · rw [declarations_append_group, if_neg hg, List.append_nil] at hne
    exact .inr hne

/-- A further declaration of a name gives its members to the group of the name. -/
theorem Collects.extend (h : Collects items gs) (hname : g.name ∈ gs.map Group.name) :
    Collects (items ++ [.group g]) (Schema.extend g.name g.members gs) := by
  have hnames := Schema.map_name_extend g.name g.members gs
  refine ⟨hnames.symm ▸ h.nodup, fun u hu => ?_, fun name hne => ?_⟩
  · rcases Schema.mem_extend h.nodup hu with ⟨hu, hn⟩ | ⟨v, hv, hn, rfl⟩
    · rw [declarations_append_group, if_neg (Ne.symm hn), List.append_nil]
      exact h.declared u hu
    · obtain ⟨first, later, hdecl, heq⟩ := h.declared v hv
      refine ⟨first, later ++ [g], ?_, ?_⟩
      · rw [declarations_append_group, if_pos hn.symm, hdecl, List.cons_append]
      · conv_lhs => rw [heq]
        simp
  · have hmem : name ∈ gs.map Group.name := by
      rcases declares_append_group hne with rfl | hne
      · exact hname
      · obtain ⟨u, hu, hname⟩ := h.complete name hne
        exact hname ▸ List.mem_map_of_mem hu
    rw [← hnames] at hmem
    exact List.mem_map.mp hmem

/-- The first declaration of a name is a group of its own. -/
theorem Collects.append_singleton (h : Collects items gs) (hfresh : ∀ u ∈ gs, u.name ≠ g.name) :
    Collects (items ++ [.group g]) (gs ++ [g]) := by
  have hnone : declarations items g.name = [] := by
    by_contra hne
    obtain ⟨u, hu, hname⟩ := h.complete g.name hne
    exact hfresh u hu hname
  refine ⟨?_, fun u hu => ?_, fun name hne => ?_⟩
  · rw [List.map_append, List.map_singleton]
    refine List.nodup_append.mpr ⟨h.nodup, List.nodup_singleton _, fun a ha b hb => ?_⟩
    obtain ⟨u, hu, rfl⟩ := List.mem_map.mp ha
    rw [List.mem_singleton.mp hb]
    exact hfresh u hu
  · rcases List.mem_append.mp hu with hu | hu
    · rw [declarations_append_group, if_neg (hfresh u hu).symm, List.append_nil]
      exact h.declared u hu
    · obtain rfl := List.mem_singleton.mp hu
      refine ⟨u, [], ?_, by simp⟩
      rw [declarations_append_group, hnone, if_pos rfl, List.nil_append]
  · rcases declares_append_group hne with rfl | hne
    · exact ⟨g, List.mem_append_right _ (List.mem_singleton_self g), rfl⟩
    · obtain ⟨u, hu, hname⟩ := h.complete name hne
      exact ⟨u, List.mem_append_left _ hu, hname⟩

theorem Collects.addTo (h : Collects items s.groups) (item : Item) :
    Collects (items ++ [item]) (Item.addTo s item).groups := by
  cases item with
  | group g =>
    show Collects _ (s.addGroup g).groups
    rw [Schema.groups_addGroup]
    split
    case isTrue hsome => exact h.extend (Schema.isSome_group?_iff.mp hsome)
    case isFalse hnone =>
      exact h.append_singleton (by simpa [Schema.isSome_group?_iff] using hnone)
  | anonymous =>
    obtain ⟨hnodup, hdeclared, hcomplete⟩ := h
    exact ⟨hnodup, by simpa [declarations, Item.addTo] using hdeclared,
      by simpa [declarations, Item.addTo] using hcomplete⟩
  | bodiless tag line =>
    obtain ⟨hnodup, hdeclared, hcomplete⟩ := h
    exact ⟨hnodup, by simpa [declarations, Item.addTo] using hdeclared,
      by simpa [declarations, Item.addTo] using hcomplete⟩

/-- The groups of a schema are what its items declare, name by name. -/
theorem collects_schemaOf (items : List Item) : Collects items (schemaOf items).groups := by
  have hfold : ∀ (more done : List Item) (s : Schema), Collects done s.groups →
      Collects (done ++ more) (more.foldl Item.addTo s).groups := by
    intro more
    induction more with
    | nil => exact fun done s h => by rwa [List.append_nil]
    | cons item more ih =>
      intro done s h
      have := ih (done ++ [item]) _ (h.addTo item)
      rwa [List.append_assoc] at this
  exact hfold items [] {}
    ⟨List.nodup_nil, fun g hg => absurd hg List.not_mem_nil, fun _ h => absurd rfl h⟩

/-- A header comes to a schema if it is read without fault. -/
theorem parse_eq_ok_iff {text : String} : parse text = .ok s ↔
    (read text).fault = none ∧ s = schemaOf (read text).items := by
  rw [parse]
  cases (read text).fault with
  | some fault => simp
  | none => simp [eq_comm]

theorem parse_eq_error_iff {text : String} {fault : Fault} :
    parse text = .error fault ↔ (read text).fault = some fault := by
  rw [parse]
  cases (read text).fault <;> simp

theorem eq_schemaOf_of_parse {text : String} (h : parse text = .ok s) :
    s = schemaOf (read text).items :=
  (parse_eq_ok_iff.mp h).2

/-- A member of a group is declared in the header. -/
theorem declaresMember_of_parse {text : String} {m : Member} (h : parse text = .ok s)
    (hg : g ∈ s.groups) (hm : m ∈ g.members) :
    ∃ last, DeclaresMember last (tokens text.toList) m := by
  rw [eq_schemaOf_of_parse h] at hg
  obtain ⟨first, later, hdecl, rfl⟩ := (collects_schemaOf _).declared g hg
  obtain ⟨d, hd, hm⟩ := List.mem_flatMap.mp hm
  rw [← hdecl] at hd
  obtain ⟨t, behind, rest, hkey, -, he⟩ := declares_of_mem_items (mem_declarations.mp hd).1
  obtain ⟨u, body, after, name, ms, hnext, -, hms, rfl⟩ := enumeration_group he
  exact ⟨_, (declaresMember_of_mem hms hm).of_suffix ((suffix_of_next? hnext).trans
    ((body_suffix behind).trans ((List.suffix_cons t behind).trans hkey)))⟩

end Header

end Enumerant
