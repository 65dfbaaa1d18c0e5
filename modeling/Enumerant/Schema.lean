/-!
# Declarations

What a source declares: groups of named values and structures of named fields. A schema keeps both
in the order of their first declaration. Groups of one name are one group with the members of all of
them, while of structures of one name the first counts. Names are found by way of indexes.
-/

namespace Enumerant

/-! ### Groups -/

/-- How the value of a member was written. -/
inductive Initializer where
  /-- Nothing was written: one more than the member before. -/
  | implicit
  /-- An integer constant, with the text that stands for it in generated code. -/
  | literal (value : Int) (text : String)
  /-- The name of another member. -/
  | reference (name : String)
  /-- Anything else, which has no known value. -/
  | unevaluated (text : String)
  deriving DecidableEq, Repr

/-- The literal whose text is the decimal form of its value. -/
def Initializer.decimal (value : Int) : Initializer :=
  .literal value (toString value)

/-- One named value of a group. -/
structure Member where
  name : String
  value : Initializer
  comment : Option String := none
  deriving DecidableEq, Repr

/-- Whether the members of a group stand alone or are bits to be combined. -/
inductive Kind where
  | plain
  | bitmask
  deriving DecidableEq, Repr

/-- A named enumeration; `width` is the number of bits of its values. -/
structure Group where
  name : String
  kind : Kind
  width : Nat := 32
  members : List Member := []
  deriving DecidableEq, Repr

/-! ### Structures -/

/-- One field of a structure; `fixed` is the only value that it may have. -/
structure Field where
  name : String := ""
  typeName : String := ""
  isPointer : Bool := false
  isOptional : Bool := false
  fixed : Option String := none
  deriving DecidableEq, Repr

/-- A structure with its fields in order. -/
structure Struct where
  name : String
  fields : List Field := []
  deriving DecidableEq, Repr

/-! ### Indexes -/

/-- A table from names to the positions where they stand in a list. -/
abbrev Index :=
  List (String × Nat)

namespace Index

/-- The positions of the names of a list. -/
def of (names : List String) : Index :=
  names.zipIdx

/-- The position of a name. -/
def position? (index : Index) (name : String) : Option Nat :=
  index.lookup name

/-- An index with a position for a name, in place of the one that the name had. -/
def put (index : Index) (name : String) (position : Nat) : Index :=
  index.filter (·.1 != name) ++ [(name, position)]

theorem put_of {names : List String} {name : String} (h : (of names).position? name = none) :
    (of names).put name names.length = of (names ++ [name]) := by
  rw [position?, List.lookup_eq_none_iff] at h
  have hkeep : (of names).filter (·.1 != name) = of names :=
    List.filter_eq_self.mpr fun p hp => bne_comm.trans (h p hp)
  rw [put, hkeep, of, of, List.zipIdx_append, Nat.zero_add]
  rfl

end Index

/-! ### Schemas -/

/-- All declarations of a source, in order, with an index of the names of each kind. An index is
kept along with its list, and it tells the positions that the names have there. -/
structure Schema where
  groups : List Group := []
  structs : List Struct := []
  groupIndex : Index := .of (groups.map Group.name)
  structIndex : Index := .of (structs.map Struct.name)
  groupIndex_eq : groupIndex = .of (groups.map Group.name) := by rfl
  structIndex_eq : structIndex = .of (structs.map Struct.name) := by rfl
  deriving DecidableEq, Repr

namespace Schema

/-- The schema with the given declarations. -/
def of (groups : List Group) (structs : List Struct := []) : Schema :=
  { groups := groups, structs := structs }

@[simp] theorem groups_of (gs : List Group) (ds : List Struct) : (of gs ds).groups = gs := rfl

/-- The group of the given name. -/
def group? (s : Schema) (name : String) : Option Group :=
  (s.groupIndex.position? name).bind fun position => s.groups[position]?

/-- The structure of the given name. -/
def struct? (s : Schema) (name : String) : Option Struct :=
  (s.structIndex.position? name).bind fun position => s.structs[position]?

theorem map_name_modify (gs : List Group) (position : Nat) (members : List Member) :
    (gs.modify position fun g => { g with members := g.members ++ members }).map Group.name =
      gs.map Group.name := by
  induction gs generalizing position with
  | nil => rw [List.modify_nil]
  | cons g gs ih =>
    cases position with
    | zero => rfl
    | succ position => rw [List.modify_succ_cons, List.map_cons, List.map_cons, ih]

/-- A schema with members put behind those of the group at a position. -/
def extendAt (s : Schema) (position : Nat) (members : List Member) : Schema :=
  { s with
    groups := s.groups.modify position fun g => { g with members := g.members ++ members }
    groupIndex_eq := by rw [map_name_modify, s.groupIndex_eq] }

/-- A schema with members put behind those of a group; nothing happens if there is no such group. -/
def append (s : Schema) (name : String) (members : List Member) : Schema :=
  match s.groupIndex.position? name with
  | some position => s.extendAt position members
  | none => s

/-- A schema with one more declaration of a group. -/
def addGroup (s : Schema) (g : Group) : Schema :=
  match h : s.groupIndex.position? g.name with
  | some position => s.extendAt position g.members
  | none =>
    { s with
      groups := s.groups ++ [g]
      groupIndex := s.groupIndex.put g.name s.groups.length
      groupIndex_eq := by
        rw [s.groupIndex_eq] at h
        simpa [s.groupIndex_eq] using Index.put_of h }

/-- A schema with one more declaration of a structure. -/
def addStruct (s : Schema) (d : Struct) : Schema :=
  match h : s.structIndex.position? d.name with
  | some _ => s
  | none =>
    { s with
      structs := s.structs ++ [d]
      structIndex := s.structIndex.put d.name s.structs.length
      structIndex_eq := by
        rw [s.structIndex_eq] at h
        simpa [s.structIndex_eq] using Index.put_of h }

/-- A schema with all declarations of another added, groups first. -/
def merge (s other : Schema) : Schema :=
  other.structs.foldl addStruct (other.groups.foldl addGroup s)

end Schema

end Enumerant
