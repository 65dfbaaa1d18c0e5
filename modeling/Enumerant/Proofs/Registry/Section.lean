import Mathlib.Data.List.ReduceOption
import Enumerant.Proofs.Schema
import Enumerant.Registry.Reading

/-!
# Sections of a registry

A registry is made of sections, elements with entries in them: blocks of the members of a group,
blocks of no group, features and extensions. Every section is read by itself (`Section.read`), and
none leaves anything open for the next one (`Writes.foldlM_step`). So the schema is found in two
steps (`map_schema_read`): the groups of all blocks are merged by name, and each gets what the other
sections add to it (`Addition.foldl_place`).
-/

namespace Enumerant.Registry

open Markup (Tag Event)

/-! ### Documents -/

/-- The element around entries. -/
inductive Frame where
  /-- A block of the members of a group. -/
  | block (name : String) (kind : Kind) (width : Nat)
  /-- A block that belongs to no group. -/
  | untyped
  | feature
  | extension (number : Option Int)
  deriving DecidableEq, Repr

/-- An element with the entries in it. -/
structure Section (α : Type) where
  frame : Frame
  entries : List α
  deriving DecidableEq, Repr

/-- The word for a kind of members. -/
def kindWord : Kind → String
  | .plain => "enum"
  | .bitmask => "bitmask"

namespace Frame

/-- The name of the element. -/
def element : Frame → String
  | block _ _ _ | untyped => "enums"
  | feature => "feature"
  | extension _ => "extension"

/-- The number of the extension that the element is. -/
def extension? : Frame → Option Int
  | extension number => number
  | block _ _ _ | untyped | feature => none

/-- The tag opens the element. A block without a width has values of 32 bits. -/
inductive Opens (tag : Tag) : Frame → Prop
  | block {attrs : Attributes} {name : String} {kind : Kind} {width : Nat}
    (htag : tag.name = "enums") (hattrs : attributesOf tag = .ok attrs)
    (hname : attrs.lookup "name" = some name) (hkind : attrs.lookup "type" = some (kindWord kind))
    (hwidth : attrs.lookup "bitwidth" = none ∧ width = 32 ∨
      ∃ text, attrs.lookup "bitwidth" = some text ∧ word? text = some width) :
    Opens tag (.block name kind width)
  | untyped {attrs : Attributes} (htag : tag.name = "enums") (hattrs : attributesOf tag = .ok attrs)
    (hkind : ∀ kind, attrs.lookup "type" ≠ some (kindWord kind)) : Opens tag .untyped
  | feature (htag : tag.name = "feature") : Opens tag .feature
  | extension {attrs : Attributes} {number : Option Int} (htag : tag.name = "extension")
    (hattrs : attributesOf tag = .ok attrs)
    (hnumber : (attrs.lookup "number").bind number? = number) : Opens tag (.extension number)

end Frame

/-- Events without a meaning of their own: tags of other elements, and text. -/
inductive Passing : Event → Prop
  | opening {tag : Tag}
    (htag : tag.name ∉ ["enums", "enum", "extension", "feature", "type", "member"]) :
    Passing (.opening tag)
  | closing {name : String} (hname : name ∉ ["enums", "extension", "type"]) :
    Passing (.closing name)
  | text {raw : List Char} (htext : (Markup.unescape? raw).isSome) : Passing (.text raw)

/-- The events between the tags of a section, with the attributes of its entries. -/
inductive Body : List Attributes → List Event → Prop
  | nil : Body [] []
  | passing {entries : List Attributes} {e : Event} {es : List Event} (he : Passing e)
    (h : Body entries es) : Body entries (e :: es)
  | entry {entries : List Attributes} {tag : Tag} {attrs : Attributes} {es : List Event}
    (htag : tag.name = "enum") (hattrs : attributesOf tag = .ok attrs) (h : Body entries es) :
    Body (attrs :: entries) (.opening tag :: es)

/-- The events of a document that is made of sections. Only a block may be an empty tag. -/
inductive Writes : List (Section Attributes) → List Event → Prop
  | nil : Writes [] []
  | passing {doc : List (Section Attributes)} {e : Event} {es : List Event} (he : Passing e)
    (h : Writes doc es) : Writes doc (e :: es)
  | filled {doc : List (Section Attributes)} {part : Section Attributes} {tag : Tag}
    {body es : List Event} (hopens : part.frame.Opens tag) (hfilled : tag.isEmpty = false)
    (hbody : Body part.entries body) (h : Writes doc es) :
    Writes (part :: doc) (.opening tag :: (body ++ .closing part.frame.element :: es))
  | empty {doc : List (Section Attributes)} {frame : Frame} {tag : Tag} {es : List Event}
    (hopens : frame.Opens tag) (hempty : tag.isEmpty = true) (hblock : frame.element = "enums")
    (h : Writes doc es) : Writes (⟨frame, []⟩ :: doc) (.opening tag :: es)

/-- The text is a document that is made of the sections. -/
def Document (text : String) (doc : List (Section Attributes)) : Prop :=
  ∃ events, Markup.events text.toList = (events, .complete) ∧ Writes doc events

/-! ### What sections declare -/

/-- The addition that an entry outside of a block makes. -/
def addition? (number : Option Int) (attrs : Attributes) : Except Fault (Option Addition) :=
  match attrs.lookup "extends" with
  | none => .ok none
  | some target =>
    match entryOf? attrs 32 number with
    | .error fault => .error fault
    | .ok none => .ok none
    | .ok (some m) => .ok (some ⟨target, m, (attrs.lookup "bitpos").bind word?⟩)

/-- What sections declare. -/
structure Yield where
  groups : List Group := []
  additions : List Addition := []

/-- What a section declares by its entries, or the first fault of them. -/
def Section.read (part : Section Attributes) : Except Fault Yield :=
  match part.frame with
  | .block name kind width =>
    (part.entries.mapM fun attrs => entryOf? attrs width none).map fun ms =>
      { groups := [⟨name, kind, width, ms.reduceOption⟩] }
  | frame =>
    (part.entries.mapM (addition? frame.extension?)).map fun as => { additions := as.reduceOption }

/-- The member that an addition puts into a group of the given width. -/
def Addition.settled (width : Nat) (a : Addition) : Member :=
  { a.member with value := (a.position.map (bitValue · width)).getD a.member.value }

/-- A group with the additions to it. -/
def settle (additions : List Addition) (g : Group) : Group :=
  { g with
    members := g.members ++ (additions.filter (·.group = g.name)).map (Addition.settled g.width) }

/-- What sections declare all together. -/
def Yield.total (ys : List Yield) : Yield :=
  ⟨ys.flatMap groups, ys.flatMap additions⟩

/-- The schema of what sections declare. -/
def Yield.schema (y : Yield) : Schema :=
  .of ((Schema.merged y.groups).map (settle y.additions))

/-- The schema of a document that is made of sections, or the first fault in it. -/
def schemaOf (doc : List (Section Attributes)) : Except Fault Schema :=
  (doc.mapM Section.read).map fun ys => (Yield.total ys).schema

/-! ### Steps -/

variable {s s' : State} {g : Group} {doc : List (Section Attributes)} {es : List Event}

/-- An event that is passed over leaves the state as it is. -/
theorem Passing.step {e : Event} (h : Passing e) (hs : s.field = none) : s.step e = .ok s := by
  cases h with
  | opening htag =>
    simp only [List.mem_cons, List.not_mem_nil, or_false, not_or] at htag
    obtain ⟨h₁, h₂, h₃, h₄, h₅, h₆⟩ := htag
    rw [State.step, State.opened, hs]
    dsimp only
    split <;> first | rfl | contradiction
  | closing hname =>
    simp only [List.mem_cons, List.not_mem_nil, or_false, not_or] at hname
    obtain ⟨h₁, h₂, h₃⟩ := hname
    refine congrArg Except.ok ?_
    unfold State.closed
    rw [hs]
    dsimp only
    split <;> first | rfl | contradiction
  | text htext =>
    obtain ⟨cs, hcs⟩ := Option.isSome_iff_exists.mp htext
    rw [State.step, hcs]
    cases s
    cases hs
    rfl

/-- An entry is opened wherever it stands outside of structs. -/
theorem step_enum {tag : Tag} {attrs : Attributes} (hs : s.field = none) (htag : tag.name = "enum")
    (hattrs : attributesOf tag = .ok attrs) : s.step (.opening tag) = s.openEntry attrs := by
  simp [State.step, State.opened, hs, htag, hattrs]

/-- In a block an entry is a member of the group. -/
theorem openEntry_of_group {attrs : Attributes} (hg : s.group = some g) :
    s.openEntry attrs = (entryOf? attrs g.width none).map fun m =>
      { s with group := some { g with members := g.members ++ m.toList } } := by
  cases s
  cases hg
  simp only [State.openEntry]
  cases entryOf? attrs g.width none <;> rfl

/-- Outside of blocks an entry is an addition. -/
theorem openEntry_of_no_group {attrs : Attributes} (hg : s.group = none) :
    s.openEntry attrs = (addition? s.extension attrs).map fun a =>
      { s with additions := s.additions ++ a.toList } := by
  cases s
  cases hg
  simp only [State.openEntry, addition?]
  cases attrs.lookup "extends" with
  | none => simp [Except.map]
  | some target =>
    cases entryOf? attrs 32 _ with
    | error fault => rfl
    | ok m => cases m <;> simp [Except.map]

/-- Where an entry puts at most one thing behind what is there, the entries of a section put all of
theirs behind it. -/
theorem Body.foldlM_step {α : Type} {f : Attributes → Except Fault (Option α)}
    (state : List α → State) (hfield : ∀ xs, (state xs).field = none)
    (hentry : ∀ xs attrs, (state xs).openEntry attrs = (f attrs).map fun x =>
      state (xs ++ x.toList)) {entries : List Attributes} (h : Body entries es) (xs : List α) :
    es.foldlM State.step (state xs) = (entries.mapM f).map fun ys =>
      state (xs ++ ys.reduceOption) := by
  induction h generalizing xs with
  | nil => simp [Except.map, pure, Except.pure]
  | passing he _ ih =>
    rw [List.foldlM_cons, he.step (hfield xs)]
    exact ih xs
  | @entry entries tag attrs es htag hattrs _ ih =>
    rw [List.foldlM_cons, step_enum (hfield xs) htag hattrs, hentry, List.mapM_cons]
    cases f attrs with
    | error fault => rfl
    | ok y =>
      refine (ih (xs ++ y.toList)).trans ?_
      cases entries.mapM f with
      | error fault => rfl
      | ok ys => cases y <;> simp [Except.map, bind, Except.bind, pure, Except.pure]

/-- Within a block, the entries make members of its group. -/
theorem Body.foldlM_step_block {entries : List Attributes} (h : Body entries es)
    (hs : s.field = none) (name : String) (kind : Kind) (width : Nat) :
    es.foldlM State.step { s with group := some ⟨name, kind, width, []⟩ } =
      (entries.mapM fun attrs => entryOf? attrs width none).map fun ms =>
        { s with group := some ⟨name, kind, width, ms.reduceOption⟩ } :=
  Body.foldlM_step (fun ms => { s with group := some ⟨name, kind, width, ms⟩ })
    (fun _ => hs) (fun ms _ => openEntry_of_group (g := ⟨name, kind, width, ms⟩) rfl) h []

/-- Outside of blocks, the entries make additions. -/
theorem Body.foldlM_step_outside {entries : List Attributes} (h : Body entries es)
    (hs : s.field = none) (hg : s.group = none) :
    es.foldlM State.step s = (entries.mapM (addition? s.extension)).map fun as =>
      { s with additions := s.additions ++ as.reduceOption } :=
  Body.foldlM_step (fun as => { s with additions := as })
    (fun _ => hs) (fun as _ => openEntry_of_no_group (s := { s with additions := as }) hg)
    h s.additions

/-! ### Sections -/

/-- Nothing is open between sections. -/
structure State.Idle (s : State) : Prop where
  group : s.group = none
  extension : s.extension = none
  field : s.field = none

/-- A state with what a section declares. -/
def State.with (s : State) (y : Yield) : State :=
  { s with
    schema := y.groups.foldl Schema.addGroup s.schema
    additions := s.additions ++ y.additions }

theorem State.Idle.with (hs : s.Idle) (y : Yield) : (s.with y).Idle :=
  ⟨hs.group, hs.extension, hs.field⟩

/-- A block is opened with its attributes. -/
theorem step_enums {tag : Tag} {attrs : Attributes} (hs : s.field = none)
    (htag : tag.name = "enums") (hattrs : attributesOf tag = .ok attrs) :
    s.step (.opening tag) = s.openBlock attrs tag.isEmpty := by
  simp [State.step, State.opened, hs, htag, hattrs]

/-- A block of enumerators or bits opens a group of 32 bits unless it says otherwise. -/
theorem block?_of_block {attrs : Attributes} {name : String} {kind : Kind} {width : Nat}
    (hname : attrs.lookup "name" = some name) (hkind : attrs.lookup "type" = some (kindWord kind))
    (hwidth : attrs.lookup "bitwidth" = none ∧ width = 32 ∨
      ∃ text, attrs.lookup "bitwidth" = some text ∧ word? text = some width) :
    block? attrs = .ok (some ⟨name, kind, width, []⟩) := by
  have hkind' : blockKind? attrs = some kind := by
    rw [blockKind?, hkind]
    cases kind <;> rfl
  rw [block?, hkind', hname]
  rcases hwidth with ⟨hwidth, rfl⟩ | ⟨text, hwidth, hword⟩
  · rw [hwidth]
  · simp [hwidth, hword]

/-- Blocks of any other type are no groups. -/
theorem block?_of_untyped {attrs : Attributes}
    (hkind : ∀ kind, attrs.lookup "type" ≠ some (kindWord kind)) : block? attrs = .ok none := by
  have hkind' : blockKind? attrs = none := by
    unfold blockKind?
    split
    case h_1 h => exact absurd h (hkind .bitmask)
    case h_2 h => exact absurd h (hkind .plain)
    case h_3 => rfl
  rw [block?, hkind']

/-- The state after a section that begins with an empty tag. -/
theorem Frame.Opens.step_empty {frame : Frame} {tag : Tag} (h : frame.Opens tag)
    (hs : s.Idle) (hempty : tag.isEmpty = true) (hblock : frame.element = "enums") :
    s.step (.opening tag) = (Section.read ⟨frame, []⟩).map s.with := by
  cases h with
  | block htag hattrs hname hkind hwidth =>
    rw [step_enums hs.field htag hattrs, State.openBlock, block?_of_block hname hkind hwidth,
      hempty]
    simp [Section.read, Except.map, State.with, pure, Except.pure]
  | untyped htag hattrs hkind =>
    rw [step_enums hs.field htag hattrs, State.openBlock, block?_of_untyped hkind]
    simp [Section.read, Except.map, State.with, pure, Except.pure]
  | feature => exact absurd hblock (by decide)
  | extension => exact absurd hblock (by simp [Frame.element])

/-- The tag of an extension or of a block that is no group only tells the extension. -/
theorem Frame.Opens.step_outside {frame : Frame} {tag : Tag} (h : frame.Opens tag) (hs : s.Idle)
    (hframe : ∀ name kind width, frame ≠ .block name kind width) :
    s.step (.opening tag) = .ok { s with extension := frame.extension? } := by
  have hidle : s = { s with extension := none } := by
    cases s
    cases hs.extension
    rfl
  cases h with
  | @block _ name kind width => exact absurd rfl (hframe name kind width)
  | untyped htag hattrs hkind =>
    rw [step_enums hs.field htag hattrs, State.openBlock, block?_of_untyped hkind]
    exact congrArg _ hidle
  | feature htag => simp [State.step, State.opened, hs.field, htag, Frame.extension?]
  | extension htag hattrs hnumber =>
    simp [State.step, State.opened, hs.field, htag, hattrs, hnumber, Frame.extension?]

/-- Its end takes the extension back. -/
theorem Frame.closed_outside {frame : Frame} (hs : s.Idle)
    (hframe : ∀ name kind width, frame ≠ .block name kind width) :
    ({ s with extension := frame.extension? } : State).closed frame.element = s := by
  obtain ⟨schema, additions, group, extension, struct, field⟩ := s
  obtain ⟨rfl, rfl, rfl⟩ : group = none ∧ extension = none ∧ field = none :=
    ⟨hs.group, hs.extension, hs.field⟩
  cases frame with
  | block name kind width => exact absurd rfl (hframe name kind width)
  | untyped => rfl
  | feature => rfl
  | extension => rfl

variable {entries : List Attributes} {tag : Tag} {body : List Event}

/-- Outside of groups entries are additions. -/
theorem Section.read_outside {frame : Frame}
    (hframe : ∀ name kind width, frame ≠ .block name kind width) :
    Section.read ⟨frame, entries⟩ = (entries.mapM (addition? frame.extension?)).map fun as =>
      { additions := as.reduceOption } := by
  cases frame with
  | block name kind width => exact absurd rfl (hframe name kind width)
  | untyped => rfl
  | feature => rfl
  | extension => rfl

/-- A section outside of groups yields its additions. -/
theorem Frame.Opens.foldlM_step_outside {frame : Frame} (h : frame.Opens tag) (hs : s.Idle)
    (hbody : Body entries body) (hframe : ∀ name kind width, frame ≠ .block name kind width) :
    (.opening tag :: (body ++ [.closing frame.element])).foldlM State.step s =
      (Section.read ⟨frame, entries⟩).map s.with := by
  rw [List.foldlM_cons, h.step_outside hs hframe, Section.read_outside hframe]
  refine (List.foldlM_append ..).trans ?_
  have hfold := hbody.foldlM_step_outside (s := { s with extension := frame.extension? })
    hs.field hs.group
  rw [hfold]
  cases entries.mapM (addition? frame.extension?) with
  | error fault => rfl
  | ok as =>
    exact congrArg Except.ok
      (Frame.closed_outside (hs.with { additions := as.reduceOption }) hframe)

/-- At the end of its block a group is added. -/
theorem closed_enums (hs : s.field = none) (g : Group) :
    ({ s with group := some g } : State).closed "enums" =
      { s with schema := s.schema.addGroup g, group := none } := by
  simp [State.closed, hs]

/-- The section of a group yields it with its members. -/
theorem Frame.Opens.foldlM_step_block {name : String} {kind : Kind} {width : Nat}
    (h : Frame.Opens tag (.block name kind width)) (hs : s.Idle) (hfilled : tag.isEmpty = false)
    (hbody : Body entries body) :
    (.opening tag :: (body ++ [.closing "enums"])).foldlM State.step s =
      (Section.read ⟨.block name kind width, entries⟩).map s.with := by
  have hread : Section.read ⟨.block name kind width, entries⟩ =
      (entries.mapM fun attrs => entryOf? attrs width none).map fun ms =>
        { groups := [⟨name, kind, width, ms.reduceOption⟩] } := rfl
  cases h with
  | block htag hattrs hname hkind hwidth =>
    rw [List.foldlM_cons, step_enums hs.field htag hattrs, State.openBlock,
      block?_of_block hname hkind hwidth, hfilled, hread]
    refine (List.foldlM_append ..).trans ?_
    simp only [Bool.false_eq_true, if_false]
    rw [hbody.foldlM_step_block hs.field name kind width]
    cases entries.mapM fun attrs => entryOf? attrs width none with
    | error fault => rfl
    | ok ms =>
      refine congrArg Except.ok ((closed_enums hs.field _).trans ?_)
      simp [State.with, hs.group]

/-- The state after a section with a body. -/
theorem Frame.Opens.foldlM_step {part : Section Attributes}
    (h : part.frame.Opens tag) (hs : s.Idle) (hfilled : tag.isEmpty = false)
    (hbody : Body part.entries body) :
    (.opening tag :: (body ++ [.closing part.frame.element])).foldlM State.step s =
      part.read.map s.with := by
  obtain ⟨frame, entries⟩ := part
  cases frame with
  | block name kind width => exact h.foldlM_step_block hs hfilled hbody
  | untyped | feature | extension => exact h.foldlM_step_outside hs hbody nofun

/-! ### Whole documents -/

/-- What two sections yield is added in their order. -/
theorem State.with_with (s : State) (y y' : Yield) :
    (s.with y).with y' = s.with ⟨y.groups ++ y'.groups, y.additions ++ y'.additions⟩ := by
  simp [State.with]

/-- A document is read section by section. -/
theorem mapM_cons_with (s : State) (part : Section Attributes) (doc : List (Section Attributes)) :
    ((part :: doc).mapM Section.read).map (fun ys => s.with (.total ys)) =
      part.read.map s.with >>= fun s' =>
        (doc.mapM Section.read).map fun ys => s'.with (.total ys) := by
  rw [List.mapM_cons]
  cases part.read with
  | error fault => rfl
  | ok y =>
    cases doc.mapM Section.read with
    | error fault => rfl
    | ok ys =>
      simp [Except.map, bind, Except.bind, pure, Except.pure, State.with_with, Yield.total]

/-- Sections are read one by one, and what they declare is put together. -/
theorem Writes.foldlM_step (h : Writes doc es) (hs : s.Idle) :
    es.foldlM State.step s = (doc.mapM Section.read).map fun ys => s.with (.total ys) := by
  induction h generalizing s with
  | nil => simp [Except.map, pure, Except.pure, State.with, Yield.total]
  | passing he _ ih =>
    rw [List.foldlM_cons, he.step hs.field]
    exact ih hs
  | @filled doc part tag body es hopens hfilled hbody _ ih =>
    have hsplit : (.opening tag :: (body ++ .closing part.frame.element :: es) : List Event) =
        (.opening tag :: (body ++ [.closing part.frame.element])) ++ es := by simp
    rw [hsplit, List.foldlM_append, hopens.foldlM_step hs hfilled hbody, mapM_cons_with]
    cases part.read with
    | error fault => rfl
    | ok y => exact ih (hs.with y)
  | @empty doc frame tag es hopens hempty hblock _ ih =>
    rw [List.foldlM_cons, hopens.step_empty hs hempty hblock, mapM_cons_with]
    cases Section.read ⟨frame, []⟩ with
    | error fault => rfl
    | ok y => exact ih (hs.with y)

/-! ### Additions -/

@[simp]
theorem name_settle (as : List Addition) (g : Group) : (settle as g).name = g.name :=
  rfl

@[simp]
theorem width_settle (as : List Addition) (g : Group) : (settle as g).width = g.width :=
  rfl

theorem settle_nil (g : Group) : settle [] g = g := by
  simp [settle]

/-- Additions settle one after another. -/
theorem settle_append (as bs : List Addition) (g : Group) :
    settle (as ++ bs) g = settle bs (settle as g) := by
  refine congrArg (Group.mk g.name g.kind g.width) ?_
  rw [List.filter_append, List.map_append, ← List.append_assoc]
  rfl

/-- An addition settles in the group of its name only. -/
theorem settle_singleton (a : Addition) (g : Group) :
    settle [a] g = if g.name = a.group then
      { g with members := g.members ++ [a.settled g.width] } else g := by
  by_cases h : g.name = a.group
  · simp [settle, h]
  · simp [settle, h, Ne.symm h]

/-- Settling renames no group. -/
theorem map_name_settle (as : List Addition) (gs : List Group) :
    (gs.map (settle as)).map Group.name = gs.map Group.name := by
  rw [List.map_map]
  rfl

/-- Among distinct names an addition is placed in the one group that it extends. -/
theorem Addition.place_eq {schema : Schema} (hd : (schema.groups.map Group.name).Nodup)
    (a : Addition) :
    a.place schema = { groups := schema.groups.map (settle [a]), structs := schema.structs } := by
  unfold Addition.place
  split
  case h_1 g hg =>
    rw [Schema.group?_eq_find?] at hg
    have hname : g.name = a.group := by simpa using List.find?_some hg
    refine Schema.eq_of_lists ?_ (Schema.structs_append _ _ _)
    rw [Schema.groups_append, Schema.extend_eq_map hd]
    refine List.map_congr_left fun u hu => ?_
    rw [settle_singleton]
    split
    -- Names are distinct, so the group that was found is the one whose turn it is.
    case isTrue hu' =>
      obtain rfl : u = g :=
        List.inj_on_of_nodup_map hd hu (List.mem_of_find?_eq_some hg) (hu'.trans hname.symm)
      rw [Addition.settled]
      split
      case h_1 h => simp [h]
      case h_2 h => simp [h]
    case isFalse => rfl
  case h_2 hnone =>
    rw [Schema.group?_eq_find?] at hnone
    have hkeep : ∀ u ∈ schema.groups, settle [a] u = u := by
      intro u hu
      rw [settle_singleton, if_neg]
      simpa using List.find?_eq_none.mp hnone u hu
    refine Schema.eq_of_lists ?_ rfl
    exact ((List.map_congr_left hkeep).trans (List.map_id' _)).symm

/-- Every group gets what is added to it, in order. -/
theorem Addition.foldl_place {schema : Schema} (hd : (schema.groups.map Group.name).Nodup)
    (as : List Addition) :
    as.foldl Addition.place schema =
      { groups := schema.groups.map (settle as), structs := schema.structs } := by
  induction as using List.reverseRecOn with
  | nil =>
    refine Schema.eq_of_lists ?_ rfl
    exact ((List.map_congr_left fun g _ => settle_nil g).trans (List.map_id' _)).symm
  | append_singleton as a ih =>
    rw [List.foldl_append, List.foldl_cons, List.foldl_nil, ih,
      Addition.place_eq ((map_name_settle as schema.groups).symm ▸ hd)]
    refine Schema.eq_of_lists ?_ rfl
    rw [List.map_map]
    exact List.map_congr_left fun g _ => (settle_append as [a] g).symm

/-- When all groups are added, the additions settle in them. -/
theorem foldl_place_foldl_addGroup (y : Yield) :
    y.additions.foldl Addition.place (y.groups.foldl Schema.addGroup {}) = y.schema := by
  rw [Schema.foldl_addGroup (s := {}) List.nodup_nil, Addition.foldl_place (Schema.nodup_merged _)]
  rfl

/-- The schema that is read from a document made of sections. -/
theorem map_schema_read {text : String} (h : Document text doc) :
    (read text).map Contents.schema = schemaOf doc := by
  obtain ⟨events, hevents, hwrites⟩ := h
  rw [read, hevents, schemaOf]
  dsimp only
  rw [hwrites.foldlM_step ⟨rfl, rfl, rfl⟩]
  cases doc.mapM Section.read with
  | error fault => rfl
  | ok ys => exact congrArg Except.ok (foldl_place_foldl_addGroup (.total ys))

end Enumerant.Registry
