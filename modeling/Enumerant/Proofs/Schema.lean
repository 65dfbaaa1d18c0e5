import Mathlib.Data.List.Induction
import Mathlib.Data.List.Nodup
import Enumerant.Schema

/-!
# Groups merged by name

What declarations come to when they are added one after another: the names in the order in which
they first occur, each with the first declaration of the name and the members of all of them
(`merged`, `foldl_addGroup`). The indexes of a schema find the first entry of a name in its lists
(`group?_eq_find?`, `struct?_eq_find?`), so that the lists say all there is to say about it. What
has been merged counts like what it was merged from (`merged_append_merged`), so adding is
associative.
-/

namespace Enumerant

/-! ### First occurrences -/

section EraseDups

variable {α : Type} [DecidableEq α]

/-- What comes last is kept if it has not occurred before. -/
theorem eraseDups_concat (as : List α) (a : α) :
    (as ++ [a]).eraseDups = as.eraseDups ++ if a ∈ as then [] else [a] := by
  rw [List.eraseDups_append, List.removeAll, List.filter_singleton]
  by_cases h : a ∈ as <;> simp [h, List.eraseDups_cons]

/-- Nothing is kept twice. -/
theorem nodup_eraseDups (as : List α) : as.eraseDups.Nodup := by
  induction as using List.reverseRecOn with
  | nil => exact List.nodup_nil
  | append_singleton as a ih =>
    rw [eraseDups_concat]
    split
    case isTrue => rwa [List.append_nil]
    case isFalse ha =>
      refine List.nodup_append.mpr ⟨ih, List.nodup_singleton a, fun b hb c hc hbc => ha ?_⟩
      rw [← List.mem_singleton.mp hc, ← hbc]
      exact List.mem_eraseDups.mp hb

/-- Filtering before or after keeps the same. -/
theorem eraseDups_filter (p : α → Bool) (as : List α) :
    (as.filter p).eraseDups = as.eraseDups.filter p := by
  induction as using List.reverseRecOn with
  | nil => rfl
  | append_singleton as a ih =>
    rw [List.filter_append, List.filter_singleton, eraseDups_concat, List.filter_append, ← ih]
    cases hp : p a with
    | false => by_cases ha : a ∈ as <;> simp [ha, hp]
    | true => by_cases ha : a ∈ as <;> simp [ha, hp, eraseDups_concat]

theorem eraseDups_eraseDups (as : List α) : as.eraseDups.eraseDups = as.eraseDups := by
  induction as using List.reverseRecOn with
  | nil => rfl
  | append_singleton as a ih =>
    rw [eraseDups_concat]
    split
    case isTrue => rwa [List.append_nil]
    case isFalse ha => rw [eraseDups_concat, ih, if_neg (mt List.mem_eraseDups.mp ha)]

/-- Within a list, what has lost its repetitions counts like what it was. -/
theorem eraseDups_append_eraseDups (as bs cs : List α) :
    (as ++ bs.eraseDups ++ cs).eraseDups = (as ++ bs ++ cs).eraseDups := by
  have hremove : cs.removeAll (as ++ bs.eraseDups) = cs.removeAll (as ++ bs) :=
    List.filter_congr fun c _ => by simp
  simp only [List.eraseDups_append, hremove]
  simp only [List.removeAll, eraseDups_filter, eraseDups_eraseDups]

end EraseDups

namespace Schema

variable {s : Schema} {g : Group} {gs hs ks : List Group} {name : String} {ms : List Member}

/-! ### Lookups -/

/-- An index gives the first position of a name. -/
theorem position?_of (names : List String) (name : String) :
    (Index.of names).position? name = names.findIdx? (· == name) := by
  have hshift : ∀ k, (names.zipIdx k).lookup name = (names.findIdx? (· == name)).map (· + k) := by
    induction names with
    | nil => exact fun k => rfl
    | cons n names ih =>
      intro k
      rw [List.zipIdx_cons, List.lookup_cons, List.findIdx?_cons, BEq.comm]
      cases hn : n == name with
      | true => simp
      | false => simp [ih, Function.comp_def, Nat.add_comm, Nat.add_left_comm]
  rw [Index.position?, Index.of, hshift]
  simp

/-- What stands at the position of a name is the first entry of the name. -/
theorem bind_position?_eq_find? {α : Type} (key : α → String) (as : List α) (name : String) :
    ((Index.of (as.map key)).position? name).bind (as[·]?) = as.find? (key · == name) := by
  rw [position?_of, List.findIdx?_map, List.find?_eq_bind_findIdx?_getElem?]
  rfl

/-- The index leads to the first group of a name. -/
theorem group?_eq_find? (s : Schema) (name : String) :
    s.group? name = s.groups.find? (·.name == name) := by
  rw [group?, s.groupIndex_eq, bind_position?_eq_find? Group.name]

/-- The index leads to the first struct of a name. -/
theorem struct?_eq_find? (s : Schema) (name : String) :
    s.struct? name = s.structs.find? (·.name == name) := by
  rw [struct?, s.structIndex_eq, bind_position?_eq_find? Struct.name]

/-- An index has an entry for every name of its list. -/
theorem isSome_position?_of {names : List String} :
    ((Index.of names).position? name).isSome ↔ name ∈ names := by
  simp [position?_of]

/-- A group is found if there is one of the name. -/
theorem isSome_group?_iff : (s.group? name).isSome ↔ name ∈ s.groups.map Group.name := by
  simp [group?_eq_find?, List.find?_isSome]

theorem isSome_struct?_iff : (s.struct? name).isSome ↔ name ∈ s.structs.map Struct.name := by
  simp [struct?_eq_find?, List.find?_isSome]

/-- Schemas with the same lists are the same, for their indexes follow from the lists. -/
theorem eq_of_lists {t : Schema} (hgroups : s.groups = t.groups)
    (hstructs : s.structs = t.structs) : s = t := by
  obtain ⟨gs, ds, gi, di, rfl, rfl⟩ := s
  obtain ⟨gs', ds', gi', di', rfl, rfl⟩ := t
  obtain rfl : gs = gs' := hgroups
  obtain rfl : ds = ds' := hstructs
  rfl

/-! ### Groups and structures apart -/

theorem groups_addStruct (s : Schema) (d : Struct) : (s.addStruct d).groups = s.groups := by
  unfold addStruct
  split <;> rfl

theorem structs_append (s : Schema) (name : String) (ms : List Member) :
    (s.append name ms).structs = s.structs := by
  unfold append
  split <;> rfl

theorem structs_addGroup (s : Schema) (g : Group) : (s.addGroup g).structs = s.structs := by
  unfold addGroup
  split <;> rfl

/-- A structure of a new name is put behind those that are there. -/
theorem structs_addStruct (s : Schema) (d : Struct) :
    (s.addStruct d).structs = s.structs ++ if (s.struct? d.name).isSome then [] else [d] := by
  have hsome : (s.structIndex.position? d.name).isSome ↔ (s.struct? d.name).isSome := by
    rw [s.structIndex_eq, isSome_position?_of, isSome_struct?_iff]
  unfold addStruct
  split
  case h_1 h => rw [if_pos (hsome.mp (h ▸ rfl)), List.append_nil]
  case h_2 h => rw [if_neg (mt hsome.mpr (by simp [h]))]

theorem structs_prefix_addStruct (s : Schema) (d : Struct) :
    s.structs <+: (s.addStruct d).structs :=
  structs_addStruct s d ▸ List.prefix_append ..

/-- Of structures of one name the first counts. -/
theorem struct?_addStruct (s : Schema) (d : Struct) :
    (s.addStruct d).struct? d.name = some ((s.struct? d.name).getD d) := by
  rw [struct?_eq_find?, structs_addStruct, List.find?_append, ← struct?_eq_find?]
  cases s.struct? d.name <;> simp

/-! ### Names -/

/-- Where every name finds something of the name, what is found has the names. -/
theorem map_filterMap_eq_self {α : Type} {key : α → String} {f : String → Option α}
    {names : List String} (h : ∀ name ∈ names, (f name).map key = some name) :
    (names.filterMap f).map key = names := by
  rw [List.map_filterMap, List.filterMap_congr h, List.filterMap_some]

/-! ### Extending groups -/

/-- Members put behind those of the first group of the given name, if there is one. -/
def extend (name : String) (members : List Member) : List Group → List Group
  | [] => []
  | g :: gs =>
    if g.name = name then { g with members := g.members ++ members } :: gs
    else g :: extend name members gs

/-- The position of a name is where the members go. -/
theorem extend_eq_modify (name : String) (ms : List Member) (gs : List Group) :
    extend name ms gs =
      match (Index.of (gs.map Group.name)).position? name with
      | some position => gs.modify position fun g => { g with members := g.members ++ ms }
      | none => gs := by
  rw [position?_of, List.findIdx?_map]
  induction gs with
  | nil => rfl
  | cons g gs ih =>
    rw [extend, List.findIdx?_cons]
    by_cases h : g.name = name
    · simp [h]
    · rw [ih, if_neg h]
      cases hpos : gs.findIdx? ((· == name) ∘ Group.name) <;> simp [h]

/-- Members are appended to the groups of a name. -/
theorem groups_append (s : Schema) (name : String) (ms : List Member) :
    (s.append name ms).groups = extend name ms s.groups := by
  rw [extend_eq_modify, ← s.groupIndex_eq, append]
  cases s.groupIndex.position? name with
  | some position => rfl
  | none => rfl

/-- A further declaration of a group brings members to it, and one of a new name is put behind the
groups that are there. -/
theorem groups_addGroup (s : Schema) (g : Group) :
    (s.addGroup g).groups =
      if (s.group? g.name).isSome then extend g.name g.members s.groups else s.groups ++ [g] := by
  have hsome : (s.groupIndex.position? g.name).isSome ↔ (s.group? g.name).isSome := by
    rw [s.groupIndex_eq, isSome_position?_of, isSome_group?_iff]
  unfold addGroup
  split
  case h_1 position h =>
    rw [if_pos (hsome.mp (h ▸ rfl)), extend_eq_modify, ← s.groupIndex_eq, h]
    rfl
  case h_2 h => rw [if_neg (mt hsome.mpr (by simp [h]))]

theorem map_name_extend (name : String) (ms : List Member) (gs : List Group) :
    (extend name ms gs).map Group.name = gs.map Group.name := by
  induction gs with
  | nil => rfl
  | cons h gs ih =>
    rw [extend]
    split
    · rfl
    · rw [List.map_cons, List.map_cons, ih]

/-- Where no two groups share a name, every group of the given name gets the members. -/
theorem extend_eq_map (h : (gs.map Group.name).Nodup) :
    extend name ms gs =
      gs.map fun g => if g.name = name then { g with members := g.members ++ ms } else g := by
  induction gs with
  | nil => rfl
  | cons g gs ih =>
    obtain ⟨hg, hd⟩ := List.nodup_cons.mp h
    rw [extend, List.map_cons]
    split
    case isTrue hname =>
      have hrest : ∀ u ∈ gs,
          (if u.name = name then { u with members := u.members ++ ms } else u) = u := by
        intro u hu
        refine if_neg fun hn => hg ?_
        rw [hname, ← hn]
        exact List.mem_map_of_mem hu
      rw [List.map_congr_left hrest, List.map_id']
    case isFalse => rw [ih hd]

/-- Where no two groups share a name, only the group of the given name gets the members. -/
theorem mem_extend (hd : (gs.map Group.name).Nodup) (hg : g ∈ extend name ms gs) :
    (g ∈ gs ∧ g.name ≠ name) ∨
      ∃ h ∈ gs, h.name = name ∧ g = { h with members := h.members ++ ms } := by
  rw [extend_eq_map hd] at hg
  obtain ⟨u, hu, rfl⟩ := List.mem_map.mp hg
  split
  case isTrue hname => exact .inr ⟨u, hu, hname, rfl⟩
  case isFalse hname => exact .inl ⟨hu, hname⟩

/-! ### Merging -/

/-- The declarations of a name, in order. -/
def named (gs : List Group) (name : String) : List Group :=
  gs.filter (·.name = name)

/-- The first of some declarations, with the members of all of them. -/
def united? : List Group → Option Group
  | [] => none
  | g :: gs => some { g with members := (g :: gs).flatMap Group.members }

/-- Declarations merged by name, in the order in which the names first occur. -/
def merged (gs : List Group) : List Group :=
  (gs.map Group.name).eraseDups.filterMap fun name => united? (named gs name)

/-- The groups of a name are those in front and then those behind. -/
theorem named_append (gs hs : List Group) (name : String) :
    named (gs ++ hs) name = named gs name ++ named hs name :=
  List.filter_append gs hs

theorem named_singleton (g : Group) (name : String) :
    named [g] name = if g.name = name then [g] else [] := by
  simp [named, List.filter_singleton]

/-- A name that no group has leads to none. -/
theorem named_eq_nil_iff : named gs name = [] ↔ name ∉ gs.map Group.name := by
  simp [named, List.filter_eq_nil_iff]

/-- The declarations of a name that occurs make a group of the name. -/
theorem exists_united?_eq_some (h : name ∈ gs.map Group.name) :
    ∃ u, united? (named gs name) = some u ∧ u.name = name := by
  cases hn : named gs name with
  | nil => exact absurd h (named_eq_nil_iff.mp hn)
  | cons g rest =>
    refine ⟨_, rfl, ?_⟩
    have hg : g ∈ named gs name := hn ▸ List.mem_cons_self
    simpa using (List.mem_filter.mp hg).2

/-- United groups keep their name. -/
theorem name_of_united? {u : Group} (h : united? (named gs name) = some u) : u.name = name := by
  have hname : name ∈ gs.map Group.name := by
    by_contra hnot
    rw [named_eq_nil_iff.mpr hnot] at h
    cases h
  obtain ⟨v, hv, hvname⟩ := exists_united?_eq_some hname
  cases hv.symm.trans h
  exact hvname

/-- The names of merged groups are those of all, each once. -/
theorem map_name_merged (gs : List Group) :
    (merged gs).map Group.name = (gs.map Group.name).eraseDups := by
  refine map_filterMap_eq_self fun name hname => ?_
  obtain ⟨u, hu, hn⟩ := exists_united?_eq_some (List.mem_eraseDups.mp hname)
  rw [hu, Option.map_some, hn]

theorem nodup_merged (gs : List Group) : ((merged gs).map Group.name).Nodup :=
  map_name_merged gs ▸ nodup_eraseDups _

/-- Merging leaves of the declarations of a name the group that they make. -/
theorem named_merged (gs : List Group) (name : String) :
    named (merged gs) name = (united? (named gs name)).toList := by
  -- The names are taken one by one: each leaves the group of its own declarations.
  have hfilter : ∀ names : List String, names.Nodup →
      named (names.filterMap fun n => united? (named gs n)) name =
        if name ∈ names then (united? (named gs name)).toList else [] := by
    intro names hd
    induction names with
    | nil => rfl
    | cons n names ih =>
      obtain ⟨hn, hd⟩ := List.nodup_cons.mp hd
      have happend : (n :: names).filterMap (fun n => united? (named gs n)) =
          (united? (named gs n)).toList ++ names.filterMap fun n => united? (named gs n) := by
        rw [List.filterMap_cons]
        cases united? (named gs n) <;> rfl
      have hhead : named (united? (named gs n)).toList name =
          if n = name then (united? (named gs n)).toList else [] := by
        cases hu : united? (named gs n) with
        | none => simp [named]
        | some u => rw [Option.toList_some, named_singleton, name_of_united? hu]
      rw [happend, named_append, hhead, ih hd]
      by_cases h : n = name
      · subst h
        simp [hn]
      · simp [h, Ne.symm h]
  rw [merged, hfilter _ (nodup_eraseDups _)]
  split
  case isTrue => rfl
  case isFalse h =>
    rw [named_eq_nil_iff.mpr (mt List.mem_eraseDups.mpr h)]
    rfl

/-- Some of the groups of a name may be united first. -/
theorem united?_append_united? (gs hs ks : List Group) :
    united? (gs ++ (united? hs).toList ++ ks) = united? (gs ++ hs ++ ks) := by
  cases hs with
  | nil => rfl
  | cons h hs => cases gs <;> simp [united?]

/-- Within declarations, what has been merged counts like what it was merged from. -/
theorem merged_append_merged (gs hs ks : List Group) :
    merged (gs ++ merged hs ++ ks) = merged (gs ++ hs ++ ks) := by
  simp only [merged, List.map_append, named_append]
  rw [← merged, map_name_merged, eraseDups_append_eraseDups]
  refine List.filterMap_congr fun name _ => ?_
  rw [named_merged, united?_append_united?]

/-! ### Adding declarations -/

/-- A further declaration of a name puts its members behind those of the group of the name. -/
theorem merged_concat_of_mem (h : g.name ∈ gs.map Group.name) :
    merged (gs ++ [g]) = extend g.name g.members (merged gs) := by
  rw [extend_eq_map (nodup_merged gs), merged, merged, List.map_filterMap, List.map_append,
    List.map_singleton, eraseDups_concat, if_pos h, List.append_nil]
  refine List.filterMap_congr fun name hname => ?_
  obtain ⟨u, hu, rfl⟩ := exists_united?_eq_some (List.mem_eraseDups.mp hname)
  obtain ⟨first, later, hnamed⟩ := List.exists_cons_of_ne_nil
    (mt named_eq_nil_iff.mp (not_not_intro (List.mem_eraseDups.mp hname)))
  rw [hnamed] at hu
  cases hu
  rw [named_append, named_singleton, hnamed, united?, Option.map_some]
  split
  case isTrue hg => simp [united?, hg]
  case isFalse hg => simp [united?, Ne.symm hg]

/-- The first declaration of a name is a group of its own. -/
theorem merged_concat_of_notMem (h : g.name ∉ gs.map Group.name) :
    merged (gs ++ [g]) = merged gs ++ [g] := by
  have hfresh : ∀ name ∈ (gs.map Group.name).eraseDups,
      united? (named (gs ++ [g]) name) = united? (named gs name) := by
    intro name hname
    have hne : g.name ≠ name := fun he => h (he ▸ List.mem_eraseDups.mp hname)
    rw [named_append, named_singleton, if_neg hne, List.append_nil]
  rw [merged, merged, List.map_append, List.map_singleton, eraseDups_concat, if_neg h,
    List.filterMap_append, List.filterMap_congr hfresh]
  simp [named_append, named_eq_nil_iff.mpr h, named_singleton, united?]

/-- Groups of distinct names stay as they are. -/
theorem merged_eq_self (h : (gs.map Group.name).Nodup) : merged gs = gs := by
  induction gs using List.reverseRecOn with
  | nil => rfl
  | append_singleton gs g ih =>
    rw [List.map_append, List.map_singleton, List.nodup_append] at h
    obtain ⟨hgs, -, hdisjoint⟩ := h
    rw [merged_concat_of_notMem fun hg => hdisjoint _ hg _ (List.mem_singleton_self _) rfl, ih hgs]

/-- Adding a group to merged ones merges it with them. -/
theorem addGroup_of_groups_eq (h : s.groups = merged gs) (g : Group) :
    s.addGroup g = { groups := merged (gs ++ [g]), structs := s.structs } := by
  have hsome : (s.group? g.name).isSome ↔ g.name ∈ gs.map Group.name := by
    rw [isSome_group?_iff, h, map_name_merged, List.mem_eraseDups]
  refine eq_of_lists ?_ (structs_addGroup s g)
  rw [groups_addGroup, h]
  split
  case isTrue hg => exact (merged_concat_of_mem (hsome.mp hg)).symm
  case isFalse hg => exact (merged_concat_of_notMem (mt hsome.mpr hg)).symm

/-- Declarations that are added one after another are merged with the groups that are there. -/
theorem foldl_addGroup (hs : (s.groups.map Group.name).Nodup) (gs : List Group) :
    gs.foldl addGroup s = { groups := merged (s.groups ++ gs), structs := s.structs } := by
  induction gs using List.reverseRecOn with
  | nil => exact eq_of_lists (by simp [merged_eq_self hs]) rfl
  | append_singleton gs g ih =>
    rw [List.foldl_append, List.foldl_cons, List.foldl_nil, ih, addGroup_of_groups_eq rfl,
      List.append_assoc]

end Schema

end Enumerant
