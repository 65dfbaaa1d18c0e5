import Enumerant.Proofs.Schema
import Mathlib.Data.List.TakeWhile

/-!
# Schemas built by operations

A schema is built from nothing by operations: groups and structures are added, and members are put
behind those of a group. What it holds then can be told from the operations alone
(`build_eq_account`). The groups stand in the order in which their names are first added. Each is
the first one that was added under its name, with all the members that came under the name from then
on (`groupOf?`). Of structures the first one of each name is kept (`firsts`). A name finds the one
entry that has it, for every operation keeps the indexes along with the lists: the position of a
name is that of the entry that has it (`IsIndexed`).
-/

namespace Enumerant

namespace Schema

/-! ### Operations -/

/-- One change of a schema. -/
inductive Operation where
  | addGroup (g : Group)
  | addStruct (d : Struct)
  /-- Members put behind those of the group of a name, if there is one. -/
  | append (name : String) (members : List Member)
  deriving DecidableEq, Repr

/-- A schema after an operation. -/
def perform (s : Schema) : Operation → Schema
  | .addGroup g => s.addGroup g
  | .addStruct d => s.addStruct d
  | .append name members => s.append name members

/-- The schema that operations build from nothing. -/
def build (ops : List Operation) : Schema :=
  ops.foldl perform {}

namespace Operation

/-- The group that an operation adds. -/
def group? : Operation → Option Group
  | addGroup g => some g
  | _ => none

/-- The structure that an operation adds. -/
def struct? : Operation → Option Struct
  | addStruct d => some d
  | _ => none

/-- The members that an operation brings under a name. -/
def members (name : String) : Operation → List Member
  | addGroup g => if g.name = name then g.members else []
  | append n ms => if n = name then ms else []
  | addStruct _ => []

/-- The operation adds a group of the name. -/
def adds (name : String) (op : Operation) : Bool :=
  op.group?.any (·.name == name)

end Operation

/-! ### The account of operations -/

/-- The groups that operations add, in order. -/
def addedGroups (ops : List Operation) : List Group :=
  ops.filterMap Operation.group?

/-- The structures that operations add, in order. -/
def addedStructs (ops : List Operation) : List Struct :=
  ops.filterMap Operation.struct?

/-- The group that operations make of a name: the first one added, with the members that are brought
under the name from there on. Before, there is nothing to put members behind. -/
def groupOf? (ops : List Operation) (name : String) : Option Group :=
  ((addedGroups ops).find? (·.name == name)).map fun g =>
    { g with members := (ops.dropWhile (!Operation.adds name ·)).flatMap (Operation.members name) }

/-- The groups that operations make, in the order in which their names are first added. -/
def entries (ops : List Operation) : List Group :=
  ((addedGroups ops).map Group.name).eraseDups.filterMap (groupOf? ops)

/-- The first structure of each name, in the order in which the names first occur. -/
def firsts (ds : List Struct) : List Struct :=
  (ds.map Struct.name).eraseDups.filterMap fun name => ds.find? (·.name == name)

/-! ### One operation -/

variable {s : Schema} {ops : List Operation} {op : Operation} {g : Group} {d : Struct}
  {ds : List Struct} {name : String}

/-- Where no two things share a name, a name finds the one that has it. -/
theorem find?_key_eq_some_iff {α : Type} {key : α → String} {as : List α} {a : α}
    (h : (as.map key).Nodup) : as.find? (key · == name) = some a ↔ a ∈ as ∧ key a = name := by
  refine ⟨fun ha => ⟨List.mem_of_find?_eq_some ha, by simpa using List.find?_some ha⟩, ?_⟩
  rintro ⟨hmem, rfl⟩
  obtain ⟨b, hb⟩ : ∃ b, as.find? (key · == key a) = some b :=
    Option.isSome_iff_exists.mp (List.find?_isSome.mpr ⟨a, hmem, beq_self_eq_true _⟩)
  have hkey : key b = key a := by simpa using List.find?_some hb
  rw [hb, List.inj_on_of_nodup_map h (List.mem_of_find?_eq_some hb) hmem hkey]

/-- An index is right about some entries: it has the names that they have, each once, and the
position of a name is that of the one entry that has it. -/
structure IsIndexed {α : Type} (key : α → String) (as : List α) (index : Index) : Prop where
  names : index.map Prod.fst = as.map key
  nodup : (as.map key).Nodup
  position?_eq_some_iff : ∀ name i, index.position? name = some i ↔
    ∃ a, as[i]? = some a ∧ key a = name

/-- Where no two entries share a name, the index of their names is right. -/
theorem isIndexed_of {α : Type} {key : α → String} {as : List α} (h : (as.map key).Nodup) :
    IsIndexed key as (.of (as.map key)) := by
  refine ⟨by rw [Index.of, List.zipIdx_map_fst], h, fun name i => ?_⟩
  have hget : ∀ {j : Nat}, (as.map key)[j]? = some name ↔ ∃ a, as[j]? = some a ∧ key a = name := by
    simp
  rw [position?_of, List.findIdx?_eq_some_iff_getElem, ← hget]
  constructor
  · rintro ⟨hi, hname, -⟩
    rw [List.getElem?_eq_getElem hi, beq_iff_eq.mp hname]
  · intro hi
    obtain ⟨hlt, hname⟩ := List.getElem?_eq_some_iff.mp hi
    refine ⟨hlt, beq_iff_eq.mpr hname, fun j hj hfirst => ?_⟩
    -- an entry of the name further in front would be the same one
    have hlt' : j < (as.map key).length := by omega
    have heq : j = i := h.getElem_inj_iff.mp ((beq_iff_eq.mp hfirst).trans hname.symm)
    omega

/-- Appending to a group of a name leaves the others alone. -/
theorem extend_eq_map_append (hs : (s.groups.map Group.name).Nodup) (name : String)
    (ms : List Member) :
    extend name ms s.groups = s.groups.map fun g =>
      { g with members := g.members ++ if name = g.name then ms else [] } := by
  rw [extend_eq_map hs]
  refine List.map_congr_left fun g _ => ?_
  by_cases h : g.name = name
  · simp [h]
  · simp [h, Ne.symm h]

/-- An operation brings members to the groups that are there, and puts a group of a new name behind
them. -/
theorem groups_perform (hs : (s.groups.map Group.name).Nodup) (op : Operation) :
    (s.perform op).groups =
      (s.groups.map fun g => { g with members := g.members ++ op.members g.name }) ++
        (op.group?.filter fun g => (s.group? g.name).isNone).toList := by
  cases op with
  | addGroup g =>
    rw [perform, groups_addGroup]
    cases hg : s.group? g.name with
    | some u =>
      simp [Operation.group?, Operation.members, Option.filter, hg, extend_eq_map_append hs]
    | none =>
      have hkeep : ∀ u ∈ s.groups,
          ({ u with members := u.members ++ Operation.members u.name (.addGroup g) } : Group) =
            u := by
        intro u hu
        rw [group?_eq_find?] at hg
        have hne : u.name ≠ g.name := by simpa using List.find?_eq_none.mp hg u hu
        simp [Operation.members, hne.symm]
      simp [List.map_congr_left hkeep, Operation.group?, Option.filter, hg]
  | addStruct d => simp [perform, groups_addStruct, Operation.members, Operation.group?]
  | append name ms =>
    simp [perform, groups_append, Operation.group?, Operation.members, extend_eq_map_append hs]

/-- An operation puts a structure of a new name behind those that are there. -/
theorem structs_perform (s : Schema) (op : Operation) :
    (s.perform op).structs =
      s.structs ++ (op.struct?.filter fun d => (s.struct? d.name).isNone).toList := by
  cases op with
  | addGroup g => simp [perform, structs_addGroup, Operation.struct?]
  | addStruct d =>
    rw [perform, structs_addStruct]
    cases hd : s.struct? d.name <;> simp [Operation.struct?, Option.filter, hd]
  | append name ms => simp [perform, structs_append, Operation.struct?]

/-! ### One operation in the account -/

theorem addedGroups_concat (ops : List Operation) (op : Operation) :
    addedGroups (ops ++ [op]) = addedGroups ops ++ op.group?.toList := by
  rw [addedGroups, List.filterMap_append]
  cases h : op.group? <;> simp [addedGroups, h]

theorem addedStructs_concat (ops : List Operation) (op : Operation) :
    addedStructs (ops ++ [op]) = addedStructs ops ++ op.struct?.toList := by
  rw [addedStructs, List.filterMap_append]
  cases h : op.struct? <;> simp [addedStructs, h]

/-- A name has a group once it has been added. -/
theorem isSome_groupOf?_iff :
    (groupOf? ops name).isSome ↔ name ∈ (addedGroups ops).map Group.name := by
  simp [groupOf?, List.find?_isSome]

/-- The group of a name has it. -/
theorem name_of_groupOf? (h : groupOf? ops name = some g) : g.name = name := by
  obtain ⟨u, hu, rfl⟩ := Option.map_eq_some_iff.mp h
  simpa using List.find?_some hu

/-- A name is among those that were added if an operation adds it. -/
theorem exists_adds_iff : (∃ o ∈ ops, o.adds name) ↔ name ∈ (addedGroups ops).map Group.name := by
  simp only [addedGroups, Operation.adds, List.mem_map, List.mem_filterMap, Option.any_eq_true,
    beq_iff_eq]
  constructor
  · rintro ⟨o, ho, g, hg, hname⟩
    exact ⟨g, ⟨o, ho, hg⟩, hname⟩
  · rintro ⟨g, ⟨o, ho, hg⟩, hname⟩
    exact ⟨o, ho, g, hg, hname⟩

/-- What counts for a name begins with the operation that adds it first. -/
theorem dropWhile_adds_concat (ops : List Operation) (op : Operation) (name : String) :
    (ops ++ [op]).dropWhile (!Operation.adds name ·) =
      if name ∈ (addedGroups ops).map Group.name then
        ops.dropWhile (!Operation.adds name ·) ++ [op]
      else if op.adds name then [op] else [] := by
  rw [List.dropWhile_append]
  split
  case isTrue h =>
    have hnone : ¬ ∃ o ∈ ops, o.adds name := by
      rintro ⟨o, ho, hadds⟩
      simpa [hadds] using List.dropWhile_eq_nil_iff.mp (List.isEmpty_iff.mp h) o ho
    rw [if_neg (mt exists_adds_iff.mpr hnone)]
    by_cases hadds : op.adds name <;> simp [hadds]
  case isFalse h =>
    have hsome : ∃ o ∈ ops, o.adds name := by
      by_contra hnone
      refine h (List.isEmpty_iff.mpr (List.dropWhile_eq_nil_iff.mpr fun o ho => ?_))
      simpa using fun hadds => hnone ⟨o, ho, hadds⟩
    rw [if_pos (exists_adds_iff.mp hsome)]

/-- A further operation brings members to the group of a name, or adds it. -/
theorem groupOf?_concat (ops : List Operation) (op : Operation) (name : String) :
    groupOf? (ops ++ [op]) name =
      match groupOf? ops name with
      | some g => some { g with members := g.members ++ op.members name }
      | none => op.group?.filter (·.name == name) := by
  rw [groupOf?, groupOf?, addedGroups_concat, List.find?_append, dropWhile_adds_concat]
  cases hfind : (addedGroups ops).find? (·.name == name) with
  | some g =>
    have hmem : name ∈ (addedGroups ops).map Group.name :=
      List.mem_map.mpr ⟨g, List.mem_of_find?_eq_some hfind, by simpa using List.find?_some hfind⟩
    simp [hmem]
  | none =>
    -- there is no group to put members behind, so only one that is added now counts
    have hmem : name ∉ (addedGroups ops).map Group.name := by
      simpa using hfind
    rw [if_neg hmem]
    cases op with
    | addGroup g =>
      obtain ⟨n, kind, width, members⟩ := g
      by_cases h : n = name <;>
        simp [Operation.group?, Operation.adds, Operation.members, Option.filter, h]
    | addStruct d => rfl
    | append n ms => rfl

/-- A later operation on a name appends to its group. -/
theorem groupOf?_concat_of_mem (h : name ∈ (addedGroups ops).map Group.name) (op : Operation) :
    groupOf? (ops ++ [op]) name = (groupOf? ops name).map fun g =>
      { g with members := g.members ++ op.members g.name } := by
  obtain ⟨g, hg⟩ := Option.isSome_iff_exists.mp (isSome_groupOf?_iff.mpr h)
  obtain rfl := name_of_groupOf? hg
  rw [groupOf?_concat, hg, Option.map_some]

/-- The groups are in the order in which their names came first. -/
theorem map_name_entries (ops : List Operation) :
    (entries ops).map Group.name = ((addedGroups ops).map Group.name).eraseDups := by
  refine map_filterMap_eq_self fun name hname => ?_
  obtain ⟨g, hg⟩ := Option.isSome_iff_exists.mp
    (isSome_groupOf?_iff.mpr (List.mem_eraseDups.mp hname))
  rw [hg, Option.map_some, name_of_groupOf? hg]

/-- A further operation does to the account what it does to a schema. -/
theorem entries_concat (ops : List Operation) (op : Operation) :
    entries (ops ++ [op]) =
      ((entries ops).map fun g => { g with members := g.members ++ op.members g.name }) ++
        (op.group?.filter (·.name ∉ (addedGroups ops).map Group.name)).toList := by
  -- the names that are there stay in front, and what they find gets the members of the operation
  have hold : ((addedGroups ops).map Group.name).eraseDups.filterMap (groupOf? (ops ++ [op])) =
      (entries ops).map fun g => { g with members := g.members ++ op.members g.name } := by
    rw [entries, List.map_filterMap]
    exact List.filterMap_congr fun name hname =>
      groupOf?_concat_of_mem (List.mem_eraseDups.mp hname) op
  rw [entries, addedGroups_concat, List.map_append]
  cases hop : op.group? with
  | none =>
    rw [Option.toList_none, List.map_nil, List.append_nil, hold, Option.filter_none,
      Option.toList_none, List.append_nil]
  | some g =>
    rw [Option.toList_some, List.map_singleton, eraseDups_concat, List.filterMap_append, hold]
    by_cases hmem : g.name ∈ (addedGroups ops).map Group.name
    · rw [if_pos hmem, Option.filter_some_neg (by simpa using hmem), List.filterMap_nil,
        Option.toList_none]
    · have hnew : groupOf? (ops ++ [op]) g.name = some g := by
        rw [groupOf?_concat, Option.not_isSome_iff_eq_none.mp (mt isSome_groupOf?_iff.mp hmem), hop]
        simp [Option.filter]
      rw [if_neg hmem, Option.filter_some_pos (by simpa using hmem),
        List.filterMap_cons_some hnew]
      rfl

/-- Of structs of one name the first stays. -/
theorem firsts_concat (ds : List Struct) (d : Struct) :
    firsts (ds ++ [d]) = firsts ds ++ if d.name ∈ ds.map Struct.name then [] else [d] := by
  have hold : (ds.map Struct.name).eraseDups.filterMap (fun name =>
      (ds ++ [d]).find? (·.name == name)) = firsts ds := by
    refine List.filterMap_congr fun name hname => ?_
    have hsome : (ds.find? (·.name == name)).isSome := by
      simpa [List.find?_isSome] using List.mem_eraseDups.mp hname
    rw [List.find?_append, Option.or_of_isSome hsome]
  rw [firsts, List.map_append, List.map_singleton, eraseDups_concat, List.filterMap_append, hold]
  split
  case isTrue => rfl
  case isFalse h =>
    have hnew : (ds ++ [d]).find? (·.name == d.name) = some d := by
      rw [List.find?_append, List.find?_eq_none.mpr (by simpa using h)]
      simp
    simp only [List.filterMap_cons, hnew, List.filterMap_nil]

/-- The structs are in the order in which their names came first. -/
theorem map_name_firsts (ds : List Struct) :
    (firsts ds).map Struct.name = (ds.map Struct.name).eraseDups := by
  refine map_filterMap_eq_self fun name hname => ?_
  obtain ⟨d, hd⟩ := Option.isSome_iff_exists.mp
    (show (ds.find? (·.name == name)).isSome by
      simpa [List.find?_isSome] using List.mem_eraseDups.mp hname)
  rw [hd, Option.map_some]
  simpa using List.find?_some hd

/-! ### All operations -/

theorem build_concat (ops : List Operation) (op : Operation) :
    build (ops ++ [op]) = (build ops).perform op := by
  rw [build, List.foldl_append]
  rfl

/-- The groups that are built are those of the account. -/
theorem groups_build (ops : List Operation) : (build ops).groups = entries ops := by
  -- by induction from the end, for the account says what a last operation does to it
  induction ops using List.reverseRecOn with
  | nil => rfl
  | append_singleton ops op ih =>
    have hnodup : ((build ops).groups.map Group.name).Nodup := by
      rw [ih, map_name_entries]
      exact nodup_eraseDups _
    have hnew : ∀ g : Group, ((build ops).group? g.name).isNone =
        decide (g.name ∉ (addedGroups ops).map Group.name) := by
      intro g
      rw [← Option.not_isSome, Bool.eq_iff_iff, decide_eq_true_iff, Bool.not_eq_true',
        ← Bool.not_eq_true, isSome_group?_iff, ih, map_name_entries, List.mem_eraseDups]
    rw [build_concat, groups_perform hnodup, entries_concat, ih]
    simp only [hnew]

/-- The structs that are built are those of the account. -/
theorem structs_build (ops : List Operation) :
    (build ops).structs = firsts (addedStructs ops) := by
  induction ops using List.reverseRecOn with
  | nil => rfl
  | append_singleton ops op ih =>
    have hnew : ∀ d : Struct, ((build ops).struct? d.name).isNone =
        decide (d.name ∉ (addedStructs ops).map Struct.name) := by
      intro d
      rw [← Option.not_isSome, Bool.eq_iff_iff, decide_eq_true_iff, Bool.not_eq_true',
        ← Bool.not_eq_true, isSome_struct?_iff, ih, map_name_firsts, List.mem_eraseDups]
    rw [build_concat, structs_perform, addedStructs_concat, ih]
    cases op.struct? with
    | none => simp
    | some d =>
      rw [Option.toList_some, firsts_concat]
      by_cases h : d.name ∈ (addedStructs ops).map Struct.name
      · rw [Option.filter_some_neg (by rw [hnew]; simpa using h), if_pos h]
        rfl
      · rw [Option.filter_some_pos (by rw [hnew]; simpa using h), if_neg h]
        rfl

/-- The index of groups is that of their list. -/
theorem isIndexed_groups_build (ops : List Operation) :
    IsIndexed Group.name (build ops).groups (build ops).groupIndex := by
  rw [(build ops).groupIndex_eq]
  refine isIndexed_of ?_
  rw [groups_build, map_name_entries]
  exact nodup_eraseDups _

/-- The index of structs is that of their list. -/
theorem isIndexed_structs_build (ops : List Operation) :
    IsIndexed Struct.name (build ops).structs (build ops).structIndex := by
  rw [(build ops).structIndex_eq]
  refine isIndexed_of ?_
  rw [structs_build, map_name_firsts]
  exact nodup_eraseDups _

/-- **A schema holds what the operations that built it come to**: every name once, in the order in
which the names were first added, with the first group or structure of the name and, in a group,
with all members that came under the name. Its indexes are right about its lists, so a name finds
the entry that has it and no other, to read it or to put members behind those of it. -/
theorem build_eq_account (ops : List Operation) :
    (build ops).groups.map Group.name = ((addedGroups ops).map Group.name).eraseDups ∧
    (build ops).groups = entries ops ∧
    (build ops).structs = firsts (addedStructs ops) ∧
    IsIndexed Group.name (build ops).groups (build ops).groupIndex ∧
    IsIndexed Struct.name (build ops).structs (build ops).structIndex ∧
    (∀ name g, (build ops).group? name = some g ↔ g ∈ (build ops).groups ∧ g.name = name) ∧
    (∀ name d, (build ops).struct? name = some d ↔ d ∈ (build ops).structs ∧ d.name = name) ∧
    ∀ name ms, ((build ops).append name ms).structs = (build ops).structs ∧
      ((build ops).append name ms).groups = (build ops).groups.map fun g =>
        if (build ops).group? name = some g then { g with members := g.members ++ ms } else g := by
  have hgroups := isIndexed_groups_build ops
  have hstructs := isIndexed_structs_build ops
  have hfind : ∀ name g, (build ops).group? name = some g ↔
      g ∈ (build ops).groups ∧ g.name = name :=
    fun name g => group?_eq_find? _ _ ▸ find?_key_eq_some_iff hgroups.nodup
  refine ⟨?_, groups_build ops, structs_build ops, hgroups, hstructs, hfind,
    fun name d => struct?_eq_find? _ _ ▸ find?_key_eq_some_iff hstructs.nodup,
    fun name ms => ⟨structs_append _ _ _, ?_⟩⟩
  · rw [groups_build, map_name_entries]
  · rw [groups_append, extend_eq_map hgroups.nodup]
    refine List.map_congr_left fun g hg => ?_
    simp only [hfind, hg, true_and]

end Schema

end Enumerant
