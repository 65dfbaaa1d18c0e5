import Enumerant.Proofs.Header.Characters
import Enumerant.Proofs.Registry.Values
import Enumerant.Proofs.Rendering.Parts
import Enumerant.Proofs.Rendering.ReadBack
import Enumerant.Proofs.Resolution.Enumerators

/-!
# Text from sources in generated code

What a source says of a member is to stay on the line of that member: the names of the member and of
its target, the text of its value and its comment. For headers it always does. In a registry, names
and comments are values of attributes, which may hold line breaks, and then the rest of such a text
is code of its own, perhaps even a marker. `keepsToLines_answer` says that nothing but a line break
in a shown name or within a comment can bring this about.
-/

namespace Enumerant

open Text Header Resolution

namespace Naming

variable {name rest api tag : List Char}

/-! ### Line breaks in tagged names -/

/-- Breaking a name up drops none of its characters. -/
theorem sublist_breakBetween (left right : Char → Bool) (cs : List Char) :
    cs.Sublist (breakBetween left right cs) := by
  induction cs with
  | nil => exact List.Sublist.refl []
  | cons c cs ih =>
    rw [breakBetween]
    split
    · exact (ih.cons '_').cons_cons c
    · exact ih.cons_cons c

theorem sublist_breakWords (inWord : Bool) (cs : List Char) :
    cs.Sublist (breakWords inWord cs) := by
  fun_induction breakWords inWord cs with
  | case1 => exact List.Sublist.refl []
  | case2 => exact List.Sublist.refl _
  | case3 inWord c d cs h ih => exact ih.cons_cons c
  | case4 inWord c d cs h h' ih => exact ((ih.cons_cons d).cons '_').cons_cons c
  | case5 inWord c d cs h h' ih => exact ih.cons_cons c

/-- A line break in a name is one in its snake case. -/
theorem newline_mem_upperSnake (h : '\n' ∈ name) : '\n' ∈ upperSnake name := by
  have hdivided : '\n' ∈ divided name :=
    ((sublist_breakWords false name).trans (sublist_breakBetween _ _ _)).mem h
  exact List.mem_flatMap.mpr ⟨'\n', hdivided, by decide⟩

theorem mem_dropWhile_of_ne {c d : Char} (hc : c ≠ d) (h : c ∈ rest) :
    c ∈ rest.dropWhile (· == d) := by
  rw [← List.takeWhile_append_dropWhile (p := (· == d)) (l := rest)] at h
  refine (List.mem_append.mp h).resolve_left fun htake => hc ?_
  simpa using List.mem_takeWhile_imp htake

/-- A line break in a name stays in the name with a tag, as no prefix takes it away. -/
theorem newline_mem_taggedMemberName (hapi : '\n' ∉ upper api) (h : '\n' ∈ name) :
    '\n' ∈ taggedMemberName name api tag := by
  have hname := newline_mem_upperSnake h
  have hrest : '\n' ∈ if (upper api).isEmpty then upperSnake name
      else (after? (upper api ++ ['_']) (upperSnake name)).getD (upperSnake name) := by
    split
    · exact hname
    · cases hafter : after? (upper api ++ ['_']) (upperSnake name) with
      | none => exact hname
      | some rest =>
        rw [append_of_after? hafter] at hname
        simpa [hapi] using hname
  unfold taggedMemberName
  dsimp only
  split
  · exact hrest
  · exact List.mem_append_right _ (List.mem_cons_of_mem _ (mem_dropWhile_of_ne (by decide) hrest))

end Naming

namespace Rendering

variable {e : Enumeration} {r : Request} {m : Enumerator} {s : Schema} {g : Group} {style : Style}

/-! ### Lines of members -/

/-- What the line of a member begins with: its name and its value. -/
def declarationOf (style : Style) (settings : Settings) (m : Enumerator) : String :=
  settings.indent ++ shownName style settings m.sourceName m.friendlyName ++ " = " ++
    shownValue style settings m ++ ","

/-- A text keeps an enumeration to its lines: its body has one row for each member, in order, which
begins with the declaration of the member, and no line of the text is a marker. -/
structure KeepsToLines (style : Style) (settings : Settings) (e : Enumeration) (text : String) :
    Prop where
  declared : List.Forall₂ (fun m row => (declarationOf style settings m).toList <+: row.toList)
    e.members (bodyOf (rows text))
  unmarked : ∀ line ∈ Text.lines text, Marker.parse? line.toList = none

/-- What a source says of a member holds no line break where it is shown. -/
structure IsUnbroken (style : Style) (m : Enumerator) : Prop where
  name : '\n' ∉ (shownName style {} m.sourceName m.friendlyName).toList
  target : ∀ a ∈ m.target, '\n' ∉ (shownName style {} a.sourceName a.friendlyName).toList
  comment : ∀ text ∈ m.comment, '\n' ∉ (trimmed text).toList

/-- A comment is kept on its line if there is no line break within it. -/
theorem newline_not_mem_commentSuffix_iff (comment : Option String) :
    '\n' ∉ (commentSuffix comment).toList ↔ ∀ text ∈ comment, '\n' ∉ (trimmed text).toList := by
  cases comment with
  | none => simp [commentSuffix]
  | some text =>
    rw [commentSuffix]
    split
    case isTrue h => simp [h]
    case isFalse => simp

/-- The line of a member is one line exactly if its names and its comment are. -/
theorem newline_not_mem_shownLine_iff (hliteral : '\n' ∉ m.literal.toList) :
    '\n' ∉ (shownLine style {} m).toList ↔ IsUnbroken style m := by
  have hvalue : '\n' ∉ (shownValue style {} m).toList ↔
      ∀ a ∈ m.target, '\n' ∉ (shownName style {} a.sourceName a.friendlyName).toList := by
    unfold shownValue
    cases m.target with
    | none => simpa using hliteral
    | some a => simp
  have hline : '\n' ∉ (shownLine style {} m).toList ↔
      '\n' ∉ (shownName style {} m.sourceName m.friendlyName).toList ∧
        '\n' ∉ (shownValue style {} m).toList ∧ '\n' ∉ (commentSuffix m.comment).toList := by
    simp [shownLine, memberLine]
  rw [hline, hvalue, newline_not_mem_commentSuffix_iff]
  constructor
  · rintro ⟨hname, htarget, hcomment⟩
    exact ⟨hname, htarget, hcomment⟩
  · rintro ⟨hname, htarget, hcomment⟩
    exact ⟨hname, htarget, hcomment⟩

/-- The line of a member begins with its name. -/
theorem exists_firstSolid?_shownLine (style : Style) (m : Enumerator) :
    ∃ c, firstSolid? (shownLine style {} m) = some c ∧ (c = 'e' ∨ c = 'L') := by
  have hname : ∃ c cs, (shownName style {} m.sourceName m.friendlyName).toList = c :: cs ∧
      (c = 'e' ∨ c = 'L') := by
    cases style with
    | enumClass => exact ⟨'e', m.friendlyName.toList, by simp [shownName], .inl rfl⟩
    | plainEnum =>
      obtain ⟨cs, hcs⟩ := exists_toList_memberName m.sourceName
      exact ⟨'L', cs, hcs, .inr rfl⟩
  obtain ⟨c, cs, hcs, hc⟩ := hname
  refine ⟨c, ?_, hc⟩
  have htab : isBlank '\t' := by decide
  have hsolid : isBlank c = false := by rcases hc with rfl | rfl <;> decide
  have hline : (shownLine style {} m).toList = '\t' :: c :: (cs ++ (" = " ++
      (shownValue style {} m ++ ("," ++ commentSuffix m.comment))).toList) := by
    simp [shownLine, memberLine, hcs]
  rw [firstSolid?, hline, trimLeft, List.dropWhile_cons_of_pos htab,
    List.dropWhile_cons_of_neg (by simp [hsolid]), List.head?_cons]

/-! ### Blocks -/

/-- Where the body of a block has no more rows than there are members, no line of a member holds a
line break. -/
theorem forall_newline_not_mem_of_keepsToLines (hframed : IsFramed e r)
    (h : KeepsToLines r.style {} e (textOf (e.lines r {}))) :
    ∀ m ∈ e.members, '\n' ∉ (shownLine r.style {} m).toList := by
  have hbefore := isQuiet_linesBefore hframed
  obtain ⟨hopening, hopens⟩ := isQuiet_openingLine hframed
  -- All lines but those of the members are one row each.
  have hrows : rows (textOf (e.lines r {})) = linesBefore e r ++ openingLine e r ::
      ((e.members.map (shownLine r.style {})).flatMap rows ++
        "\x7d;" :: ((linesBehind e r).flatMap rows ++ [""])) := by
    rw [rows_textOf, lines_eq, List.flatMap_append,
      flatMap_rows_of_forall fun l hl => (hbefore l hl).1.newline_not_mem, List.flatMap_cons,
      rows_eq_singleton hopening.newline_not_mem, List.flatMap_append, List.flatMap_cons,
      rows_eq_singleton (s := "\x7d;") (by decide)]
    simp
  -- The body has all rows of the members, and no more of them than there are members.
  have hprefix := isPrefix_bodyOf (fun l hl => (hbefore l hl).2) hopens
    ((e.members.map (shownLine r.style {})).flatMap rows) ((linesBehind e r).flatMap rows ++ [""])
  rw [← hrows] at hprefix
  have hlength := hprefix.length_le
  rw [← h.declared.length_eq, ← List.length_map (shownLine r.style {})] at hlength
  exact fun m hm => forall_of_length_flatMap_rows_le hlength _ (List.mem_map_of_mem hm)

section Unbroken

variable (hframed : IsFramed e r) (hnamed : ∀ m ∈ e.members, IsNamed r.style m)
  (h : ∀ m ∈ e.members, '\n' ∉ (shownLine r.style {} m).toList)

include hframed hnamed h

/-- No line of a rendering is a marker or more than one line. -/
theorem forall_of_mem_lines : ∀ l ∈ e.lines r {},
    '\n' ∉ l.toList ∧ Marker.parse? (l ++ "\n").toList = none := by
  have hbefore := isQuiet_linesBefore hframed
  have hopening := (isQuiet_openingLine hframed).1
  have hbehind := isQuiet_linesBehind hframed hnamed
  rw [lines_eq]
  refine List.forall_mem_append.mpr ⟨fun l hl => ?_, List.forall_mem_cons.mpr ⟨?_,
    List.forall_mem_append.mpr ⟨List.forall_mem_map.mpr fun m hm => ⟨h m hm, ?_⟩,
      List.forall_mem_cons.mpr ⟨by decide +kernel, fun l hl => ?_⟩⟩⟩⟩
  · exact ⟨(hbefore l hl).1.newline_not_mem, (hbefore l hl).1.not_marker⟩
  · exact ⟨hopening.newline_not_mem, hopening.not_marker⟩
  · obtain ⟨c, hc, hletter⟩ := exists_firstSolid?_shownLine r.style m
    refine parse?_eq_none (firstSolid?_append hc "\n") ?_
    rcases hletter with rfl | rfl <;> decide
  · exact ⟨(hbehind l hl).newline_not_mem, (hbehind l hl).not_marker⟩

/-- The rows of a rendering are its lines. -/
theorem rows_textOf_lines : rows (textOf (e.lines r {})) = e.lines r {} ++ [""] :=
  rows_textOf_of_forall fun l hl => (forall_of_mem_lines hframed hnamed h l hl).1

/-- The body of a block are the lines of its members. -/
theorem bodyOf_rows_lines :
    bodyOf (rows (textOf (e.lines r {}))) = e.members.map (shownLine r.style {}) := by
  have hbehind := isQuiet_linesBehind hframed hnamed
  rw [rows_textOf_lines hframed hnamed h, lines_eq, List.append_assoc, List.cons_append,
    List.append_assoc, List.cons_append]
  refine bodyOf_eq (fun l hl => (isQuiet_linesBefore hframed l hl).2)
    (isQuiet_openingLine hframed).2 ?_
  exact List.forall_mem_append.mpr ⟨fun l hl => (hbehind l hl).ne_close, by decide⟩

/-- Where no line of a member holds a line break, the lines of the block are its rows. -/
theorem keepsToLines_of_forall : KeepsToLines r.style {} e (textOf (e.lines r {})) := by
  constructor
  · rw [bodyOf_rows_lines hframed hnamed h, List.forall₂_map_right_iff, List.forall₂_same]
    intro m hm
    rw [shownLine, memberLine, ← declarationOf, String.toList_append]
    exact List.prefix_append _ _
  · have hlines := forall_of_mem_lines hframed hnamed h
    rw [lines_textOf fun l hl => (hlines l hl).1]
    exact List.forall_mem_map.mpr fun l hl => (hlines l hl).2

end Unbroken

/-! ### Resolved groups -/

theorem newline_not_mem_toString (v : Int) : '\n' ∉ (toString v).toList := by
  obtain ⟨sign, digits, hspells⟩ := Registry.exists_spells_decimal v
  exact hspells.newline_not_mem

/-- A group's name and the texts of its literals keep to their lines. -/
structure IsSteady (g : Group) : Prop where
  name : '\n' ∉ g.name.toList
  literal : ∀ m ∈ g.members, ∀ v t, m.value = .literal v t → '\n' ∉ t.toList

/-- What stands around the members of a resolved group is on lines of its own. -/
theorem isFramed_resolve (hg : IsSteady g) (hstorage : ∀ t ∈ r.storage, '\n' ∉ t.toList) :
    IsFramed (g.resolve {}).value r := by
  have hname : '\n' ∉ Naming.typeName g.name.toList ({} : Settings).apiPrefix.toList :=
    fun hmem => hg.name ((Naming.typeName_suffix _ _).mem hmem)
  have htype : (g.resolve {}).value.typeName.toList =
      Naming.typeName g.name.toList ({} : Settings).apiPrefix.toList := String.toList_ofList
  have hflags : (g.resolve {}).value.flagsTypeName.toList =
      Naming.flagsTypeName (g.resolve {}).value.typeName.toList := String.toList_ofList
  refine ⟨htype ▸ hname, ?_, hstorage⟩
  rw [hflags, htype, Naming.flagsTypeName]
  split
  · intro hmem
    rcases mem_replacedFrom hmem with hmem | hmem
    · exact absurd hmem (by decide)
    · exact hname hmem
  · simpa using hname

/-- A literal of a resolved group is on one line. -/
theorem newline_not_mem_literal (hg : IsSteady g) (hm : m ∈ (g.resolve {}).value.members) :
    '\n' ∉ m.literal.toList := by
  obtain ⟨n, hn, v, -, -, hliteral, -⟩ := Group.exists_members_of_mem_resolve hm
  rw [hliteral, literalOf]
  split
  case h_1 w t hvalue => exact hg.literal n hn w t hvalue
  case h_2 => exact newline_not_mem_toString v

/-- A name without line breaks has a friendly form without them. -/
theorem newline_not_mem_friendlyName {group member suffix : String}
    (h : '\n' ∉ member.toList) : '\n' ∉ (friendlyName group member suffix).toList := by
  have hchars : ∀ c ∈ member.toList, c ≠ '\n' := fun c hc => ne_of_mem_of_not_mem hc h
  rw [friendlyName, String.toList_ofList]
  split
  · exact fun hmem => Naming.forall_camel spellable_ne_newline hchars _ hmem rfl
  · exact fun hmem => Naming.forall_memberFriendly spellable_ne_newline hchars _ hmem rfl

/-- A line break in a name is shown, in one style as in the other, so a name without one in a style
has a friendly form without one. -/
theorem isNamed_of_isUnbroken (hg : IsSteady g) (hm : m ∈ (g.resolve {}).value.members)
    (h : IsUnbroken style m) : IsNamed style m := by
  refine ⟨h.name, ?_, newline_not_mem_literal hg hm⟩
  have hname := h.name
  cases style with
  | enumClass =>
    rw [shownName, String.toList_append, List.mem_append, not_or] at hname
    exact hname.2
  | plainEnum =>
    obtain ⟨n, -, v, hsource, hfriendly, -⟩ := Group.exists_members_of_mem_resolve hm
    rw [hfriendly]
    refine newline_not_mem_friendlyName fun hmem => hname ?_
    rw [shownName, hsource, PlainEnum.memberName, String.toList_ofList]
    exact Naming.newline_mem_taggedMemberName (by decide +kernel) hmem

/-- A rendering keeps to lines exactly if each member does. -/
theorem keepsToLines_iff (hg : IsSteady g) (hstorage : ∀ t ∈ r.storage, '\n' ∉ t.toList) :
    KeepsToLines r.style {} (g.resolve {}).value (textOf ((g.resolve {}).value.lines r {})) ↔
      ∀ m ∈ (g.resolve {}).value.members, IsUnbroken r.style m := by
  have hframed := isFramed_resolve hg hstorage
  have hlines : ∀ m ∈ (g.resolve {}).value.members,
      ('\n' ∉ (shownLine r.style {} m).toList ↔ IsUnbroken r.style m) :=
    fun m hm => newline_not_mem_shownLine_iff (newline_not_mem_literal hg hm)
  constructor
  · exact fun h m hm => (hlines m hm).mp (forall_newline_not_mem_of_keepsToLines hframed h m hm)
  · intro h
    exact keepsToLines_of_forall hframed (fun m hm => isNamed_of_isUnbroken hg hm (h m hm))
      fun m hm => (hlines m hm).mpr (h m hm)

/-! ### Schemas of both sources -/

/-- What a header gives a group is on one line. -/
theorem isSteady_of_parse_header {text : String} (h : Header.parse text = .ok s)
    (hg : g ∈ s.groups) : IsSteady g :=
  ⟨not_mem_of_isWord (isWord_name_of_parse h hg).2,
    fun _ hm => (isConfined_of_parse h hg hm).newline_not_mem_literal⟩

/-- So is what a registry gives one, if its name is. -/
theorem isSteady_of_read_registry {text : String} {c : Registry.Contents}
    (h : Registry.read text = .ok c) (hg : g ∈ c.schema.groups) (hname : '\n' ∉ g.name.toList) :
    IsSteady g := by
  refine ⟨hname, fun m hm v t hvalue => ?_⟩
  have hentry := Registry.entryValue_of_read h g hg m hm
  rw [hvalue] at hentry
  obtain ⟨sign, digits, hspells⟩ := hentry.exists_spells
  exact hspells.newline_not_mem

/-- What the members of a header show holds no line break. -/
theorem isUnbroken_of_parse_header {text : String} (h : Header.parse text = .ok s)
    (hg : g ∈ s.groups) (style : Style) (hm : m ∈ (g.resolve {}).value.members) :
    IsUnbroken style m := by
  have hshown : ∀ n ∈ g.members, ∀ suffix,
      '\n' ∉ (shownName style {} n.name (friendlyName g.name n.name suffix)).toList := by
    intro n hn suffix
    have hword := (isConfined_of_parse h hg hn).name
    exact not_mem_of_isWord (isWord_shownName style hword.2 (isWordChar_friendlyName hword.2)).2
  obtain ⟨n, hn, v, hsource, hfriendly, -, hcomment, htarget⟩ :=
    Group.exists_members_of_mem_resolve hm
  refine ⟨hsource ▸ hfriendly ▸ hshown n hn _, fun a ha => ?_, fun text htext => ?_⟩
  · obtain ⟨t, ht, rfl⟩ := htarget a ha
    exact hshown t ht _
  · rw [hcomment] at htext
    simpa [trimmed] using fun hc =>
      (isConfined_of_parse h hg hn).comment text htext (mem_of_mem_trim hc)

/-- What is looked up is a group of the schema. -/
theorem mem_groups_of_lookup {settings : Settings} {name : String}
    (h : s.lookup settings name = some g) : g ∈ s.groups := by
  rcases (Option.orElse_eq_some _ _ _).mp h with h | ⟨-, h⟩ <;>
    exact List.mem_of_find?_eq_some ((Schema.group?_eq_find? s _).symm.trans h)

/-- **What a source says of a member stays on the line of the member.** For a header this holds
whatever is asked for. For a registry it holds, if the name of the group has no line break, exactly
if no name that is shown has one, and no comment has one within. -/
theorem keepsToLines_answer {answer : Logged String} (hg : s.lookup {} r.group = some g)
    (hanswer : s.answer? {} r = some answer) (hstorage : ∀ t ∈ r.storage, '\n' ∉ t.toList) :
    (∀ text, Header.parse text = .ok s →
      KeepsToLines r.style {} (g.resolve {}).value answer.value) ∧
    ∀ text c, Registry.read text = .ok c → c.schema = s → '\n' ∉ g.name.toList →
      (KeepsToLines r.style {} (g.resolve {}).value answer.value ↔
        ∀ m ∈ (g.resolve {}).value.members, IsUnbroken r.style m) := by
  have hmem := mem_groups_of_lookup hg
  have hvalue : answer.value = textOf ((g.resolve {}).value.lines r {}) := by
    rw [Schema.answer?, hg, Option.map_some, Option.some_inj] at hanswer
    rw [← hanswer]
  rw [hvalue]
  constructor
  · intro text h
    exact (keepsToLines_iff (isSteady_of_parse_header h hmem) hstorage).mpr
      fun m hm => isUnbroken_of_parse_header h hmem r.style hm
  · rintro text c h rfl hname
    exact keepsToLines_iff (isSteady_of_read_registry h hmem hname) hstorage

/-- A group with a comment and an alias. -/
def signal : Group :=
  ⟨"Signal", .plain, 32,
    [⟨"STOP", .literal 1 "0x1", some "halt"⟩, ⟨"RED", .reference "STOP", none⟩]⟩

/-- The header that declares `signal`. -/
def signalHeader : String :=
  "enum Signal \x7b STOP = 0x1, // halt\n RED = STOP \x7d;"

/-- The registry that declares `signal`. -/
def signalRegistry : String :=
  "<enums name=\"Signal\" type=\"enum\">" ++
    "<enum name=\"STOP\" value=\"0x1\" comment=\"halt\"/>" ++
    "<enum name=\"RED\" alias=\"STOP\"/></enums>"

/-- Both sources keep `signal` to its lines. -/
theorem keepsToLines_answer_signal :
    Header.parse signalHeader = .ok { groups := [signal] } ∧
      Registry.read signalRegistry = .ok { schema := { groups := [signal] } } ∧
      ∃ answer, Schema.answer? { groups := [signal] } {} { group := "Signal", table := true } =
          some answer ∧
        KeepsToLines .enumClass {} (signal.resolve {}).value answer.value ∧
        ∀ m ∈ (signal.resolve {}).value.members, IsUnbroken .enumClass m := by
  have hparse : Header.parse signalHeader = .ok { groups := [signal] } := by decide +kernel
  have hregistry : Registry.read signalRegistry = .ok { schema := { groups := [signal] } } := by
    decide +kernel
  obtain ⟨hheader, hregistry'⟩ := keepsToLines_answer (s := { groups := [signal] })
    (r := { group := "Signal", table := true }) (g := signal) rfl rfl (by simp)
  have hkeeps := hheader _ hparse
  exact ⟨hparse, hregistry, _, rfl, hkeeps,
    (hregistry' _ _ hregistry rfl (by decide)).mp hkeeps⟩

/-- A registry with a comment of two lines, the second of which opens a region. -/
def forgedRegistry : String :=
  "<enums name=\"G\" type=\"enum\">" ++
    "<enum name=\"A\" value=\"1\" comment=\"first\n// Codegen &lt;G>\"/></enums>"

/-- The second line of the comment is a line of its own, and a marker. -/
theorem not_keepsToLines_forged :
    ∃ c, Registry.read forgedRegistry = .ok c ∧ ∃ g, c.schema.lookup {} "G" = some g ∧
      ∃ answer, c.schema.answer? {} { group := "G" } = some answer ∧
        ¬ KeepsToLines .enumClass {} (g.resolve {}).value answer.value := by
  have hread : Registry.read forgedRegistry = .ok { schema := { groups :=
      [⟨"G", .plain, 32, [⟨"A", .literal 1 "1", some "first\n// Codegen <G>"⟩]⟩] } } := by
    decide +kernel
  refine ⟨_, hread, _, rfl, _, rfl, fun h => ?_⟩
  have hmarker := h.unmarked "// Codegen <G>\n" (by decide +kernel)
  revert hmarker
  decide +kernel

end Rendering

end Enumerant
