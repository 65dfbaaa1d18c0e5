import Enumerant.Proofs.Registry.Section
import Enumerant.Proofs.Result

/-!
# What a registry declares

Where every entry gives its value in at most one way, a document says by itself what it declares
(`declared`): the groups of its blocks, merged by name, each with the members that entries elsewhere
add to it, whether these stand in front of the blocks of the group or behind them. That is what is
read (`map_schema_read_eq_declared`), as long as the numbers keep to what values can be: a bit from
the 64th on is refused, although its position is a number, and the value at an offset wraps where
128 bits do not hold it (`not_map_schema_read_eq_declared`).
-/

namespace Enumerant.Registry

/-! ### Entries -/

/-- How an entry gives its value. -/
inductive Given where
  | nothing
  | reference (target : String)
  | value (text : String)
  | bit (position : Nat)
  /-- An offset into the values of an extension, whose number the entry may give. -/
  | offset (extension : Option Int) (offset : Int) (negative : Bool)
  deriving DecidableEq, Repr

/-- The attributes that give values. -/
def valueKeys : List String :=
  ["alias", "value", "bitpos", "offset"]

/-- The attributes give a value in this way and in no other, and their numbers are numbers. -/
inductive Given.Reads (attrs : Attributes) : Given → Prop
  | nothing (hsole : ∀ key ∈ valueKeys, attrs.lookup key = none) : Reads attrs .nothing
  | reference {target : String} (h : attrs.lookup "alias" = some target)
    (hsole : ∀ key ∈ valueKeys, key ≠ "alias" → attrs.lookup key = none) :
    Reads attrs (.reference target)
  | value {text : String} (h : attrs.lookup "value" = some text)
    (hsole : ∀ key ∈ valueKeys, key ≠ "value" → attrs.lookup key = none) :
    Reads attrs (.value text)
  | bit {text : String} {position : Nat} (h : attrs.lookup "bitpos" = some text)
    (hposition : word? text = some position)
    (hsole : ∀ key ∈ valueKeys, key ≠ "bitpos" → attrs.lookup key = none) :
    Reads attrs (.bit position)
  | offset {text : String} {o : Int} {extension : Option Int} {negative : Bool}
    (h : attrs.lookup "offset" = some text) (hoffset : number? text = some o)
    (hextension : (attrs.lookup "extnumber").map number? = extension.map some)
    (hnegative : negative ↔ attrs.lookup "dir" = some "-")
    (hsole : ∀ key ∈ valueKeys, key ≠ "offset" → attrs.lookup key = none) :
    Reads attrs (.offset extension o negative)

/-- What an offset stands for: an extension owns a thousand values, of either sign, from a thousand
million on. -/
def blockValue (n o : Int) (negative : Bool) : Int :=
  (if negative then -1 else 1) * (1000000000 + (n - 1) * 1000 + o)

/-- The value that is given, in a group of the given width and an extension of the given number. -/
def Given.value? (width : Nat) (number : Option Int) : Given → Option Initializer
  | nothing => none
  | reference target => some (.reference target)
  | value text => some (valueOfText text)
  | bit position => some (bitValue position width)
  | offset extension o negative =>
    (extension <|> number).map fun n => .decimal (blockValue n o negative)

/-- The numbers that are given keep to what values can be: a bit is one of the first 64, and the
value at an offset is one that 128 bits hold. -/
def Given.Within (number : Option Int) : Given → Prop
  | bit position => position < 64
  | offset extension o negative => ∀ n ∈ extension <|> number, Fits (blockValue n o negative)
  | nothing | reference _ | value _ => True

/-- The attributes of an entry that gives its value in at most one way. -/
structure Entry where
  attributes : Attributes
  given : Given
  reads : given.Reads attributes

namespace Entry

/-- The member that an entry describes, if it has a name and gives a value. -/
def member? (width : Nat) (number : Option Int) (e : Entry) : Option Member :=
  match e.attributes.lookup "name", e.given.value? width number with
  | some name, some value => some ⟨name, value, e.attributes.lookup "comment"⟩
  | _, _ => none

/-- An entry with an offset knows the extension that it counts from. -/
def Numbered (number : Option Int) (e : Entry) : Prop :=
  ∀ offset negative, e.given = .offset none offset negative → number.isSome

/-- The numbers of an entry keep to what values can be. -/
def Within (number : Option Int) (e : Entry) : Prop :=
  e.given.Within number

end Entry

/-! ### Documents -/

/-- A section with something else for its entries. -/
def Section.map {α β : Type} (f : α → β) (part : Section α) : Section β :=
  ⟨part.frame, part.entries.map f⟩

/-- The group that a block declares. -/
def Section.group? (part : Section Entry) : Option Group :=
  match part.frame with
  | .block name kind width =>
    some ⟨name, kind, width, part.entries.filterMap (Entry.member? width none)⟩
  | _ => none

/-- The entries that stand in no block of a group. -/
def Section.outside (part : Section Entry) : List Entry :=
  match part.frame with
  | .block _ _ _ => []
  | _ => part.entries

/-- The members that a section adds to a group whose block is elsewhere. -/
def Section.added (part : Section Entry) (name : String) (width : Nat) : List Member :=
  (part.outside.filter (·.attributes.lookup "extends" = some name)).filterMap
    (Entry.member? width part.frame.extension?)

/-- The groups that a document declares. -/
def declared (doc : List (Section Entry)) : List Group :=
  (Schema.merged (doc.filterMap Section.group?)).map fun g =>
    { g with members := g.members ++ doc.flatMap (·.added g.name g.width) }

/-! ### Reading entries -/

variable {width : Nat} {number : Option Int} {e : Entry}

/-- The value of an offset is wrapped, however it is reckoned. -/
theorem offsetValue_eq (n o : Int) (negative : Bool) :
    offsetValue n o negative = wrapped (blockValue n o negative) := by
  cases negative with
  | false => simp [offsetValue, blockValue]
  | true =>
    have hwrapped := wrapped_eq_self_iff.mpr (fits_wrapped (1000000000 + (n - 1) * 1000 + o))
    rw [wrapped_eq_wrapped_iff] at hwrapped
    simp only [offsetValue, blockValue, if_true]
    rw [wrapped_eq_wrapped_iff]
    omega

/-- What is given is what the entry reads. -/
theorem Given.Reads.entryValue {attrs : Attributes} {given : Given} (h : given.Reads attrs)
    (hn : ∀ o negative, given = .offset none o negative → number.isSome)
    (hw : given.Within number) (name : String) :
    entryValue name attrs width number = .ok (given.value? width number) := by
  unfold Registry.entryValue
  cases h with
  | nothing hsole =>
    rw [hsole "alias" (by decide), hsole "value" (by decide), hsole "bitpos" (by decide),
      hsole "offset" (by decide)]
    rfl
  | reference h => simp [h, value?]
  | value h hsole => simp [h, hsole "alias" (by decide) (by decide), value?]
  | bit h hposition hsole =>
    have hlt : _ < 64 := hw
    simp [h, hposition, hlt, hsole "alias" (by decide) (by decide),
      hsole "value" (by decide) (by decide), value?]
  -- An extension number of the entry's own counts before that of the extension around it.
  | @offset text o extension negative h hoffset hextension hnegative hsole =>
    have hsign : decide (attrs.lookup "dir" = some "-") = negative := by simp [← hnegative]
    have hnumber : (attrs.lookup "extnumber").bind number? = extension := by
      cases hext : attrs.lookup "extnumber" <;> rw [hext] at hextension <;> cases extension <;>
        simp at hextension ⊢
      exact hextension
    obtain ⟨n, hsome⟩ : ∃ n, (extension <|> number) = some n := by
      cases extension with
      | none => exact Option.isSome_iff_exists.mp (hn o _ rfl)
      | some n => exact ⟨n, rfl⟩
    have hfits := wrapped_eq_self_iff.mpr (hw n hsome)
    simp only [hsole "alias" (by decide) (by decide), hsole "value" (by decide) (by decide),
      hsole "bitpos" (by decide) (by decide), h, hoffset, hnumber, hsome, hsign,
      offsetValue_eq, hfits, value?, Option.map_some]

/-- An entry is read as the member that it declares. -/
theorem Entry.entryOf?_eq (hn : e.Numbered number) (hw : e.Within number) :
    entryOf? e.attributes width number = .ok (e.member? width number) := by
  rw [member?, Registry.entryOf?.eq_def]
  cases e.attributes.lookup "name" with
  | none => rfl
  | some name =>
    dsimp only
    rw [e.reads.entryValue hn hw]
    cases e.given.value? width number <;> rfl

/-- The position of the bit that an entry gives. -/
def Given.position? : Given → Option Nat
  | bit position => some position
  | _ => none

/-- The addition that an entry makes outside of a block. -/
def Entry.addition? (number : Option Int) (e : Entry) : Option Addition :=
  match e.attributes.lookup "extends", e.member? 32 number with
  | some target, some m => some ⟨target, m, e.given.position?⟩
  | _, _ => none

/-- A bit position is read where it is given. -/
theorem Given.Reads.position?_eq {attrs : Attributes} {given : Given} (h : given.Reads attrs) :
    (attrs.lookup "bitpos").bind word? = given.position? := by
  cases h with
  | nothing hsole => rw [hsole "bitpos" (by decide)]; rfl
  | reference h hsole | value h hsole => rw [hsole "bitpos" (by decide) (by decide)]; rfl
  | bit h hposition => rw [h]; exact hposition
  | offset h _ _ _ hsole => rw [hsole "bitpos" (by decide) (by decide)]; rfl

/-- An addition is read as the one that it declares. -/
theorem Entry.addition?_eq (hn : e.Numbered number) (hw : e.Within number) :
    Registry.addition? number e.attributes = .ok (e.addition? number) := by
  rw [Registry.addition?, addition?]
  cases e.attributes.lookup "extends" with
  | none => rfl
  | some target =>
    dsimp only
    rw [entryOf?_eq hn hw, e.reads.position?_eq]
    cases e.member? 32 number <;> rfl

/-- Only the value of a bit depends on the width. -/
theorem Given.value?_eq_map (given : Given) (width : Nat) (number : Option Int) :
    given.value? width number =
      (given.value? 32 number).map ((given.position?.map (bitValue · width)).getD ·) := by
  cases given with
  | offset => simp [value?, position?, Option.map_map, Function.comp_def]
  | _ => rfl

/-- Where an addition is placed, it is the member that the entry describes there. -/
theorem Entry.map_settled_addition? (e : Entry) (width : Nat) (number : Option Int)
    (name : String) :
    ((e.addition? number).filter (·.group = name)).map (Addition.settled width) =
      if e.attributes.lookup "extends" = some name then e.member? width number else none := by
  rw [addition?, member?, member?, e.given.value?_eq_map width]
  cases e.attributes.lookup "extends" with
  | none => simp
  | some target =>
    cases e.attributes.lookup "name" with
    | none => simp
    | some m =>
      cases e.given.value? 32 number with
      | none => simp
      | some value => by_cases h : target = name <;> simp [h, Addition.settled]

/-! ### Reading documents -/

variable {doc : List (Section Entry)}

/-- What a section of such entries declares. -/
def Section.yield (part : Section Entry) : Yield :=
  ⟨part.group?.toList, part.outside.filterMap (Entry.addition? part.frame.extension?)⟩

/-- A section is read as what it yields. -/
theorem Section.read_eq_yield {part : Section Entry}
    (hn : ∀ e ∈ part.entries, e.Numbered part.frame.extension?)
    (hw : ∀ e ∈ part.entries, e.Within part.frame.extension?) :
    (part.map Entry.attributes).read = .ok part.yield := by
  have hblock : ∀ width, part.frame.extension? = none →
      (part.entries.map Entry.attributes).mapM (fun attrs => entryOf? attrs width none) =
        .ok (part.entries.map (Entry.member? width none)) := by
    intro width hnone
    rw [List.mapM_map]
    exact mapM_ok fun e he => Entry.entryOf?_eq (hnone ▸ hn e he) (hnone ▸ hw e he)
  have houtside : (part.entries.map Entry.attributes).mapM (addition? part.frame.extension?) =
      .ok (part.entries.map (Entry.addition? part.frame.extension?)) := by
    rw [List.mapM_map]
    exact mapM_ok fun e he => Entry.addition?_eq (hn e he) (hw e he)
  obtain ⟨frame, entries⟩ := part
  cases frame with
  | block name kind width =>
    refine (congrArg (Except.map _) (hblock width rfl)).trans ?_
    simp [Except.map, yield, group?, outside, List.reduceOption]
  | untyped | feature | extension =>
    refine (congrArg (Except.map _) houtside).trans ?_
    simp [Except.map, yield, group?, outside, List.reduceOption]

/-- What a section adds to a group does not depend on where the group is declared. -/
theorem Section.map_settled_additions (part : Section Entry) (name : String) (width : Nat) :
    (part.yield.additions.filter (·.group = name)).map (Addition.settled width) =
      part.added name width := by
  rw [yield, added, List.filter_filterMap, List.map_filterMap, List.filterMap_filter]
  refine List.filterMap_congr fun e _ => ?_
  simpa using e.map_settled_addition? width part.frame.extension? name

/-- A document in which every offset knows what it counts from. -/
def Numbered (doc : List (Section Entry)) : Prop :=
  ∀ part ∈ doc, ∀ e ∈ part.entries, e.Numbered part.frame.extension?

/-- A document in which all numbers keep to what values can be. -/
def Within (doc : List (Section Entry)) : Prop :=
  ∀ part ∈ doc, ∀ e ∈ part.entries, e.Within part.frame.extension?

/-- **A document declares what it says**, whatever the order of its sections. -/
theorem map_schema_read_eq_declared {text : String}
    (h : Document text (doc.map (Section.map Entry.attributes))) (hn : Numbered doc)
    (hw : Within doc) :
    (read text).map Contents.schema = .ok { groups := declared doc } := by
  have hread : (doc.map (Section.map Entry.attributes)).mapM Section.read =
      .ok (doc.map Section.yield) := by
    rw [List.mapM_map]
    exact mapM_ok fun part hpart => Section.read_eq_yield (hn part hpart) (hw part hpart)
  rw [map_schema_read h, schemaOf, hread]
  have hgroups : (Yield.total (doc.map Section.yield)).groups = doc.filterMap Section.group? := by
    change (doc.map Section.yield).flatMap Yield.groups = _
    rw [List.flatMap_map, List.filterMap_eq_flatMap_toList]
    rfl
  have hadditions : ∀ g, settle (Yield.total (doc.map Section.yield)).additions g =
      { g with members := g.members ++ doc.flatMap (·.added g.name g.width) } := by
    intro g
    refine congrArg (fun ms => ({ g with members := g.members ++ ms } : Group)) ?_
    change (((doc.map Section.yield).flatMap Yield.additions).filter _).map _ = _
    rw [List.filter_flatMap, List.map_flatMap, List.flatMap_map]
    exact List.flatMap_congr fun part _ => part.map_settled_additions g.name g.width
  refine congrArg (fun gs => Except.ok { groups := gs : Schema }) ?_
  rw [hgroups, declared]
  exact List.map_congr_left fun g _ => hadditions g

/-! ### An extension in front of its block -/

/-- An extension that adds to a block behind it, and a feature that adds to it and to none. -/
def tideRegistry : String :=
  "<extension number=\"3\"><require>" ++
    "<enum extends=\"T\" name=\"NEAP\" offset=\"2\" dir=\"-\"/>" ++ "</require></extension>" ++
    "<enums name=\"T\" type=\"bitmask\">" ++ "<enum name=\"LOW\" value=\"1\"/></enums>" ++
    "<feature><enum extends=\"T\" name=\"HIGH\" bitpos=\"4\"/>" ++
    "<enum extends=\"W\" name=\"GALE\" alias=\"LOW\"/></feature>"

/-- The sections of `tideRegistry`. -/
def tideSections : List (Section Entry) :=
  [⟨.extension (some 3), [
      ⟨[("extends", "T"), ("name", "NEAP"), ("offset", "2"), ("dir", "-")],
        .offset none 2 true, .offset rfl (by decide) rfl (by decide) (by decide)⟩]⟩,
    ⟨.block "T" .bitmask 32, [
      ⟨[("name", "LOW"), ("value", "1")], .value "1", .value rfl (by decide)⟩]⟩,
    ⟨.feature, [
      ⟨[("extends", "T"), ("name", "HIGH"), ("bitpos", "4")],
        .bit 4, .bit rfl (by decide) (by decide)⟩,
      ⟨[("extends", "W"), ("name", "GALE"), ("alias", "LOW")],
        .reference "LOW", .reference rfl (by decide)⟩]⟩]

theorem events_tideRegistry : Markup.events tideRegistry.toList =
    ([.opening ⟨"extension", " number=\"3\"".toList, false⟩,
      .opening ⟨"require", [], false⟩,
      .opening ⟨"enum", " extends=\"T\" name=\"NEAP\" offset=\"2\" dir=\"-\"".toList, true⟩,
      .closing "require",
      .closing "extension",
      .opening ⟨"enums", " name=\"T\" type=\"bitmask\"".toList, false⟩,
      .opening ⟨"enum", " name=\"LOW\" value=\"1\"".toList, true⟩,
      .closing "enums",
      .opening ⟨"feature", [], false⟩,
      .opening ⟨"enum", " extends=\"T\" name=\"HIGH\" bitpos=\"4\"".toList, true⟩,
      .opening ⟨"enum", " extends=\"W\" name=\"GALE\" alias=\"LOW\"".toList, true⟩,
      .closing "feature"], .complete) := by
  unfold tideRegistry
  iterate 6 rewrite [String.toList_append]
  -- texts are taken apart here, for evaluation would do it with their bytes
  repeat rewrite [String.toList_ofList]
  decide +kernel

theorem document_tideRegistry :
    Document tideRegistry (tideSections.map (Section.map Entry.attributes)) := by
  have hextension : Frame.Opens ⟨"extension", " number=\"3\"".toList, false⟩
      (.extension (some 3)) :=
    @Frame.Opens.extension _ [("number", "3")] _ rfl (by decide +kernel) (by decide)
  have hblock : Frame.Opens ⟨"enums", " name=\"T\" type=\"bitmask\"".toList, false⟩
      (.block "T" .bitmask 32) :=
    @Frame.Opens.block _ [("name", "T"), ("type", "bitmask")] _ _ _ rfl (by decide +kernel) rfl rfl
      (.inl ⟨rfl, rfl⟩)
  refine ⟨_, events_tideRegistry, ?_⟩
  refine @Writes.filled _ ⟨.extension (some 3), _⟩ _ [_, _, _] _ hextension rfl ?_ ?_
  · exact .passing (.opening (by decide)) <| .entry rfl (by decide +kernel) <|
      .passing (.closing (by decide)) .nil
  refine @Writes.filled _ ⟨.block "T" .bitmask 32, _⟩ _ [_] _ hblock rfl ?_ ?_
  · exact .entry rfl (by decide +kernel) .nil
  refine @Writes.filled _ ⟨.feature, _⟩ _ [_, _] _ (.feature rfl) rfl ?_ .nil
  exact .entry rfl (by decide +kernel) <| .entry rfl (by decide +kernel) .nil

/-- What stands in front of the block comes behind its members, too. -/
theorem map_schema_read_tideRegistry :
    Document tideRegistry (tideSections.map (Section.map Entry.attributes)) ∧
    Numbered tideSections ∧ Within tideSections ∧
    (read tideRegistry).map Contents.schema = .ok { groups := [⟨"T", .bitmask, 32, [
      ⟨"LOW", .literal 1 "1", none⟩, ⟨"NEAP", .literal (-1000002002) "-1000002002", none⟩,
      ⟨"HIGH", .literal 16 "0x00000010", none⟩]⟩] } := by
  have hnumbered : Numbered tideSections := by
    simp [Numbered, tideSections, Entry.Numbered, Frame.extension?]
  have hwithin : Within tideSections := by
    have hneap : Fits (-1000002002) := by decide
    simpa [Within, tideSections, Entry.Within, Given.Within, Frame.extension?, blockValue]
      using hneap
  refine ⟨document_tideRegistry, hnumbered, hwithin, ?_⟩
  rw [map_schema_read_eq_declared document_tideRegistry hnumbered hwithin]
  decide +kernel

/-! ### Numbers beyond the range of values -/

/-- A registry with a bit beyond those of values. -/
def farBit : String :=
  "<enums name=\"G\" type=\"enum\"><enum name=\"A\" bitpos=\"64\"/></enums>"

/-- A registry with an offset into the values of an extension that has none left. -/
def farOffset : String :=
  "<enums name=\"G\" type=\"enum\">" ++
    "<enum name=\"A\" extnumber=\"170141183460469231731687303715884105727\" offset=\"0\"/></enums>"

/-- The section of `farBit`. -/
def farBitSections : List (Section Entry) :=
  [⟨.block "G" .plain 32, [⟨[("name", "A"), ("bitpos", "64")],
    .bit 64, .bit rfl (by decide) (by decide)⟩]⟩]

/-- The section of `farOffset`. -/
def farOffsetSections : List (Section Entry) :=
  [⟨.block "G" .plain 32, [
    ⟨[("name", "A"), ("extnumber", "170141183460469231731687303715884105727"), ("offset", "0")],
      .offset (some 170141183460469231731687303715884105727) 0 false,
      .offset rfl (by decide) (by decide +kernel) (by decide) (by decide)⟩]⟩]

/-- The tag of the block in both. -/
def farTag : Markup.Tag :=
  ⟨"enums", " name=\"G\" type=\"enum\"".toList, false⟩

theorem opens_farTag : Frame.Opens farTag (.block "G" .plain 32) :=
  @Frame.Opens.block _ [("name", "G"), ("type", "enum")] _ _ _ rfl (by decide +kernel) rfl rfl
    (.inl ⟨rfl, rfl⟩)

theorem document_farBit : Document farBit (farBitSections.map (Section.map Entry.attributes)) := by
  refine ⟨[.opening farTag, .opening ⟨"enum", " name=\"A\" bitpos=\"64\"".toList, true⟩,
    .closing "enums"], by decide +kernel, ?_⟩
  refine @Writes.filled _ ⟨.block "G" .plain 32, _⟩ _ [_] _ opens_farTag rfl ?_ .nil
  exact .entry rfl (by decide +kernel) .nil

theorem document_farOffset :
    Document farOffset (farOffsetSections.map (Section.map Entry.attributes)) := by
  refine ⟨[.opening farTag, .opening ⟨"enum", (" name=\"A\" extnumber=" ++
      "\"170141183460469231731687303715884105727\" offset=\"0\"").toList, true⟩,
    .closing "enums"], by decide +kernel, ?_⟩
  refine @Writes.filled _ ⟨.block "G" .plain 32, _⟩ _ [_] _ opens_farTag rfl ?_ .nil
  exact .entry rfl (by decide +kernel) .nil

/-- A document whose numbers are all numbers may be refused, and it may declare another value than
an offset stands for. -/
theorem not_map_schema_read_eq_declared :
    (∃ doc, Document farBit (doc.map (Section.map Entry.attributes)) ∧ Numbered doc ∧
      read farBit = .error (.badPosition "A" "64")) ∧
    ∃ doc, Document farOffset (doc.map (Section.map Entry.attributes)) ∧ Numbered doc ∧
      declared doc = [⟨"G", .plain, 32, [⟨"A",
        .decimal 170141183460469231731687303715885105726000, none⟩]⟩] ∧
      (read farOffset).map Contents.schema = .ok { groups := [⟨"G", .plain, 32, [⟨"A",
        .decimal (999998000), none⟩]⟩] } := by
  refine ⟨⟨farBitSections, document_farBit, ?_, by decide +kernel⟩,
    farOffsetSections, document_farOffset, ?_, by decide +kernel, by decide +kernel⟩
  · simp [Numbered, farBitSections, Entry.Numbered]
  · simp [Numbered, farOffsetSections, Entry.Numbered]

end Enumerant.Registry
