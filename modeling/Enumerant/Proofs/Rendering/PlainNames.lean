import Enumerant.Proofs.Rendering.Confinement
import Enumerant.Proofs.Resolution.Alias

/-!
# The names in plain enumerations

In a plain enumeration every enumerator should have a name of its own, an alias should refer to one
that is declared before it, and the cases of the name function should be enumerators. All of this is
read from the text (`IsSound`). The names are made of the source names alone: different members may
get the same one, and an alias may refer to a member that has been left out. For the groups of a
header `isSound_lines_iff` shows that nothing else can go wrong.
-/

namespace Enumerant

open Text Header Resolution

namespace Rendering

variable {e : Enumeration} {r : Request} {m : Enumerator} {s : Schema} {g : Group}
  {text name : String} {cs ds : List Char}

/-! ### Reading plain enumerations -/

/-- The enumerator that a row declares: the word in front, and what stands from ` = ` to a comma. -/
def readEnumerator? (row : String) : Option (List Char × List Char) :=
  let row := trimLeft row.toList
  (after? " = ".toList (row.dropWhile isWordChar)).map fun value =>
    (row.takeWhile isWordChar, value.takeWhile (· != ','))

/-- The label of a row that is a case. -/
def readLabel? (row : String) : Option (List Char) :=
  (after? "case ".toList (trimLeft row.toList)).map (·.takeWhile (· != ':'))

/-- The enumerators that a text declares, with what stands for their values. -/
def readEnumerators (text : String) : List (List Char × List Char) :=
  (bodyOf (rows text)).filterMap readEnumerator?

/-- The labels of the cases in a text. -/
def readLabels (text : String) : List (List Char) :=
  (rows text).filterMap readLabel?

/-- Every enumerator of a text has a name of its own, what refers to an enumerator stands behind it,
and the cases are enumerators. -/
structure IsSound (text : String) : Prop where
  nodup : ((readEnumerators text).map Prod.fst).Nodup
  declared : ∀ pre x post, readEnumerators text = pre ++ x :: post → IsWord x.2 →
    x.2 ∈ pre.map Prod.fst
  labelled : ∀ label ∈ readLabels text, label ∈ (readEnumerators text).map Prod.fst

theorem takeWhile_append_cons {p : Char → Bool} {c : Char} (hc : p c = false) (cs ds : List Char) :
    (cs ++ c :: ds).takeWhile p = cs.takeWhile p := by
  induction cs with
  | nil => simp [hc]
  | cons d cs ih =>
    rw [List.cons_append, List.takeWhile_cons, List.takeWhile_cons, ih]

theorem takeWhile_ne_of_isWord {c : Char} (hc : isWordChar c = false) (h : IsWord cs) :
    cs.takeWhile (· != c) = cs := by
  refine List.takeWhile_eq_self_iff.mpr fun d hd => bne_iff_ne.mpr ?_
  rintro rfl
  rw [h.2 d hd] at hc
  cases hc

theorem isBlank_of_isWordStart {c : Char} (hc : isWordStart c) : isBlank c = false :=
  not_isBlank_of_isWordChar (isWordChar_of_isWordStart hc)

/-- The line of a member is read as its name and its value. -/
theorem readEnumerator?_memberLine (hname : IsWord name.toList) (value : String)
    (comment : Option String) :
    readEnumerator? (memberLine "\t" name value comment) =
      some (name.toList, value.toList.takeWhile (· != ',')) := by
  obtain ⟨c, ds, hcons, hc, -⟩ := hname.exists_cons
  have hline : (memberLine "\t" name value comment).toList =
      '\t' :: (name.toList ++ (" = ".toList ++ (value.toList ++
        ',' :: (commentSuffix comment).toList))) := by
    simp [memberLine]
  have htrim : trimLeft (memberLine "\t" name value comment).toList =
      name.toList ++ (" = ".toList ++ (value.toList ++ ',' :: (commentSuffix comment).toList)) := by
    rw [hline, trimLeft, List.dropWhile_cons_of_pos (by decide), hcons, List.cons_append,
      List.dropWhile_cons_of_neg (by simp [isBlank_of_isWordStart hc])]
  have hends : EndsRun isWordChar (" = ".toList ++ (value.toList ++
      ',' :: (commentSuffix comment).toList)) := by
    rintro d ⟨⟩
    decide
  have htake := takeWhile_append_eq hname.2 hends
  have hdrop : (name.toList ++ (" = ".toList ++ (value.toList ++
      ',' :: (commentSuffix comment).toList))).dropWhile isWordChar =
      " = ".toList ++ (value.toList ++ ',' :: (commentSuffix comment).toList) :=
    dropWhile_append_eq hname.2 hends
  rw [readEnumerator?, htrim, htake, hdrop, after?_append, Option.map_some,
    takeWhile_append_cons (by decide)]

/-- Only cases begin with their letter. -/
theorem readLabel?_eq_none {l : String} {c : Char} (h : firstSolid? l = some c) (hc : c ≠ 'c') :
    readLabel? l = none := by
  obtain ⟨cs, hcs⟩ := List.head?_eq_some_iff.mp h
  have hafter : after? "case ".toList (c :: cs) = none := by
    have htext : "case ".toList = 'c' :: "ase ".toList := rfl
    rw [htext, after?, if_neg (by simpa using hc.symm)]
  rw [readLabel?, hcs, hafter, Option.map_none]

/-- A line is no case if what it begins with shows another letter. -/
theorem readLabel?_append {front : String} (h : (firstSolid? front).any (· != 'c'))
    (rest : String) : readLabel? (front ++ rest) = none := by
  obtain ⟨c, hsolid, hc⟩ := (Option.any_eq_true _ _).mp h
  exact readLabel?_eq_none (firstSolid?_append hsolid rest) (by simpa using hc)

/-- The label of a case is read back. -/
theorem readLabel?_caseLine {c : String × String} (hlabel : IsWord c.1.toList) :
    readLabel? (caseLine c) = some c.1.toList := by
  rw [readLabel?, trimLeft_caseLine, after?_append, Option.map_some,
    takeWhile_append_cons (by decide), takeWhile_ne_of_isWord (by decide) hlabel]

/-- The labels of a name function are those of its cases. -/
theorem filterMap_readLabel?_nameFunction {typeName selector : String}
    {cases : List (String × String)} (hcases : ∀ c ∈ cases, IsWord c.1.toList) :
    (nameFunction {} typeName selector cases).filterMap readLabel? =
      cases.map fun c => c.1.toList := by
  have hhead : readLabel? ("static constexpr char const* to_str(const " ++
      (typeName ++ "& tp) \x7b")) = none :=
    readLabel?_append (by decide +kernel) _
  have hswitch : readLabel? ("\tswitch (" ++ (selector ++ ") \x7b")) = none :=
    readLabel?_append (by decide +kernel) _
  simp only [← String.append_assoc] at hhead hswitch
  have hfront : (["static constexpr char const* to_str(const " ++ typeName ++ "& tp) \x7b",
      "\tswitch (" ++ selector ++ ") \x7b", "// clang-format off"]).filterMap readLabel? = [] := by
    have hremark : readLabel? "// clang-format off" = none := by decide +kernel
    simp [hhead, hswitch, hremark]
  have hcase : (cases.map caseLine).filterMap readLabel? = cases.map fun c => c.1.toList := by
    rw [List.filterMap_map, ← List.filterMap_eq_map]
    exact List.filterMap_congr fun c hc => readLabel?_caseLine (hcases c hc)
  have hend : ["\t\tdefault: return \"Unknown\";", "\t\t// clang-format on", "\t\x7d",
      "\x7d"].filterMap readLabel? = [] := by
    decide +kernel
  rw [nameFunction_eq, List.filterMap_append, List.filterMap_append, hfront, hcase, hend,
    List.nil_append, List.append_nil]

/-! ### What is read from a block -/

/-- The name of an enumerator with a given source name. -/
def plainName (sourceName : String) : List Char :=
  (PlainEnum.memberName {} sourceName).toList

/-- What is read from the line of a member: its name, and the name of its target or the text of its
value. -/
def readBack (m : Enumerator) : List Char × List Char :=
  (plainName m.sourceName, (shownValue .plainEnum {} m).toList.takeWhile (· != ','))

/-- A member is read back by its name. -/
theorem fst_readBack (m : Enumerator) : (readBack m).1 = plainName m.sourceName := by
  rw [readBack]

/-- An alias is read back with the name of its target. -/
theorem readBack_of_target {a : Alias} (ha : ∀ c ∈ a.sourceName.toList, isWordChar c)
    (htarget : m.target = some a) : (readBack m).2 = plainName a.sourceName := by
  have hvalue : shownValue .plainEnum {} m = PlainEnum.memberName {} a.sourceName := by
    rw [shownValue, htarget]
    rfl
  rw [readBack, hvalue]
  dsimp only
  rw [takeWhile_ne_of_isWord (by decide) (isWord_memberName ha), plainName]

/-- An enumeration as headers give it, the lines of which are rows. -/
structure IsReadable (e : Enumeration) (r : Request) : Prop where
  framed : IsFramed e r
  named : ∀ m ∈ e.members, IsNamed r.style m
  unbroken : ∀ m ∈ e.members, '\n' ∉ (shownLine r.style {} m).toList
  style : r.style = .plainEnum
  sourceName : ∀ m ∈ e.members, ∀ c ∈ m.sourceName.toList, isWordChar c
  target : ∀ m ∈ e.members, ∀ a ∈ m.target, ∀ c ∈ a.sourceName.toList, isWordChar c
  literal : ∀ m ∈ e.members, ∀ c ∈ m.literal.toList.head?, isWordStart c = false

namespace IsReadable

variable (h : IsReadable e r)

include h

/-- All members are read back from the text. -/
theorem readEnumerators_textOf :
    readEnumerators (textOf (e.lines r {})) = e.members.map readBack := by
  rw [readEnumerators, bodyOf_rows_lines h.framed h.named h.unbroken, h.style, List.filterMap_map,
    ← List.filterMap_eq_map]
  refine List.filterMap_congr fun m hm => ?_
  have hline : shownLine .plainEnum {} m = memberLine "\t" (PlainEnum.memberName {} m.sourceName)
      (shownValue .plainEnum {} m) m.comment := by
    rw [shownLine, shownName]
  rw [Function.comp_apply, Function.comp_apply, hline,
    readEnumerator?_memberLine (isWord_memberName (h.sourceName m hm)), readBack, plainName]

/-- The cases are the names of the enumerators that stand for their values. -/
theorem mem_readLabels {label : List Char} (hlabel : label ∈ readLabels (textOf (e.lines r {}))) :
    ∃ m ∈ e.members, label = plainName m.sourceName := by
  -- No line but those of the name function begins like a case.
  have hopening : readLabel? (openingLine e r) = none := by
    have hline : openingLine e r = "enum " ++ (PlainEnum.typeName e {} ++ (" : " ++ (storage e r ++
        " \x7b"))) := by
      simp [openingLine, h.style, String.append_assoc]
    rw [hline]
    exact readLabel?_append (by decide +kernel) _
  have hmembers : (e.members.map (shownLine r.style {})).filterMap readLabel? = [] := by
    refine List.filterMap_eq_nil_iff.mpr (List.forall_mem_map.mpr fun m hm => ?_)
    obtain ⟨c, hc, hletter⟩ := exists_firstSolid?_shownLine r.style m
    refine readLabel?_eq_none hc ?_
    rcases hletter with rfl | rfl <;> decide
  have hclose : readLabel? "\x7d;" = none := by decide +kernel
  have hblank : readLabel? "" = none := by decide +kernel
  have hcases : ∀ c ∈
      e.distinct.map fun m => (PlainEnum.memberName {} m.sourceName, m.friendlyName),
      IsWord c.1.toList := by
    refine List.forall_mem_map.mpr fun m hm => ?_
    exact isWord_memberName (h.sourceName m (mem_distinctFrom hm).1)
  have hbefore : linesBefore e r = [] := by rw [linesBefore, h.style]
  have hbehind : linesBehind e r = if r.table then "" :: PlainEnum.valueNames e {} else [] := by
    rw [linesBehind, h.style]
  rw [readLabels, rows_textOf_lines h.framed h.named h.unbroken, lines_eq, hbefore, hbehind,
    List.nil_append, List.filterMap_append, List.filterMap_cons_none hopening,
    List.filterMap_append, hmembers, List.nil_append, List.filterMap_cons_none hclose,
    List.filterMap_cons_none hblank, List.filterMap_nil, List.append_nil] at hlabel
  split at hlabel
  case isTrue =>
    rw [List.filterMap_cons_none hblank, PlainEnum.valueNames,
      filterMap_readLabel?_nameFunction hcases, List.map_map] at hlabel
    obtain ⟨m, hm, rfl⟩ := List.mem_map.mp hlabel
    exact ⟨m, (mem_distinctFrom hm).1, rfl⟩
  case isFalse => exact absurd hlabel List.not_mem_nil

/-- What is read as a value is a word if it is the name of a target, and only then. -/
theorem isWord_readBack_iff (hm : m ∈ e.members) :
    IsWord (readBack m).2 ↔ ∃ a, m.target = some a ∧ (readBack m).2 = plainName a.sourceName := by
  cases htarget : m.target with
  | none =>
    have hvalue : (readBack m).2 = m.literal.toList.takeWhile (· != ',') := by
      simp [readBack, shownValue, htarget]
    refine iff_of_false (fun hword => ?_) (by simp)
    obtain ⟨c, cs, hcons, hc, -⟩ := hword.exists_cons
    have hfirst : c ∈ m.literal.toList.head? := by
      obtain ⟨ds, hds⟩ : (readBack m).2 <+: m.literal.toList :=
        hvalue ▸ List.takeWhile_prefix _
      rw [← hds, hcons]
      rfl
    rw [h.literal m hm c hfirst] at hc
    cases hc
  | some a =>
    have hname : IsWord (plainName a.sourceName) := isWord_memberName (h.target m hm a htarget)
    have hvalue : (readBack m).2 = plainName a.sourceName :=
      readBack_of_target (h.target m hm a htarget) htarget
    exact iff_of_true (hvalue ▸ hname) ⟨a, rfl, hvalue⟩

/-- A block is sound exactly if no two names are the same and each alias stands behind an enumerator
with the name that it refers to. -/
theorem isSound_iff : IsSound (textOf (e.lines r {})) ↔
    (e.members.map fun m => plainName m.sourceName).Nodup ∧
      ∀ pre m post a, e.members = pre ++ m :: post → m.target = some a →
        ∃ u ∈ pre, plainName u.sourceName = plainName a.sourceName := by
  have hread := h.readEnumerators_textOf
  have hnames : (readEnumerators (textOf (e.lines r {}))).map Prod.fst =
      e.members.map fun m => plainName m.sourceName := by
    rw [hread, List.map_map]
    exact List.map_congr_left fun m _ => fst_readBack m
  constructor
  · rintro ⟨hnodup, hdeclared, -⟩
    rw [hnames] at hnodup
    refine ⟨hnodup, fun pre m post a hes ha => ?_⟩
    have hm : m ∈ e.members := hes ▸ by simp
    -- The value of an alias is read back as a word, and such words must be declared in front.
    have hword : IsWord (readBack m).2 := by
      refine (h.isWord_readBack_iff hm).mpr ⟨a, ha, ?_⟩
      exact readBack_of_target (h.target m hm a ha) ha
    obtain ⟨b, hb, hvalue⟩ := (h.isWord_readBack_iff hm).mp hword
    obtain rfl := Option.some.inj (ha.symm.trans hb)
    have hmem := hdeclared (pre.map readBack) (readBack m) (post.map readBack)
      (by rw [hread, hes, List.map_append, List.map_cons]) hword
    rw [List.map_map, hvalue] at hmem
    obtain ⟨u, hu, hname⟩ := List.mem_map.mp hmem
    exact ⟨u, hu, (fst_readBack u).symm.trans hname⟩
  · rintro ⟨hnodup, htargets⟩
    rw [← hnames] at hnodup
    refine ⟨hnodup, fun pre x post hcut hword => ?_, fun label hlabel => ?_⟩
    -- Where the text is cut, the members are.
    · rw [hread] at hcut
      obtain ⟨before, more, hes, rfl, hmore⟩ := List.map_eq_append_iff.mp hcut
      obtain ⟨m, after, rfl, rfl, rfl⟩ := List.map_eq_cons_iff.mp hmore
      obtain ⟨a, ha, hvalue⟩ := (h.isWord_readBack_iff (hes ▸ by simp)).mp hword
      obtain ⟨u, hu, hname⟩ := htargets before m after a hes ha
      rw [hvalue, ← hname, List.map_map]
      exact List.mem_map.mpr ⟨u, hu, fst_readBack u⟩
    · obtain ⟨m, hm, hname⟩ := h.mem_readLabels hlabel
      rw [hnames, hname]
      exact List.mem_map_of_mem (f := fun m : Enumerator => plainName m.sourceName) hm

end IsReadable

/-! ### Groups of headers -/

theorem not_isWordStart_toString (v : Int) :
    ∀ c ∈ (toString v).toList.head?, isWordStart c = false := by
  have hdigits : ∀ n : Nat, ∀ c ∈ (Nat.toDigits 10 n).head?, isWordStart c = false := fun n c hc =>
    not_isWordStart_of_isDigit
      (Nat.isDigit_of_mem_toDigits (by decide) (by decide) (List.mem_of_mem_head? hc))
  rw [Int.toString_eq_repr]
  cases v with
  | ofNat n => simpa [Int.repr, Nat.repr] using hdigits n
  | negSucc n =>
    rintro c hc
    obtain rfl : c = '-' := by simpa [Int.repr, eq_comm] using hc
    decide

/-- Groups of headers can be read back once they are resolved. -/
theorem isReadable_resolve (h : Header.parse text = .ok s) (hg : g ∈ s.groups)
    (hstyle : r.style = .plainEnum) (hstorage : ∀ t ∈ r.storage, '\n' ∉ t.toList) :
    IsReadable (g.resolve {}).value r := by
  have hsteady := isSteady_of_parse_header h hg
  have hunbroken := fun m hm => isUnbroken_of_parse_header (m := m) h hg r.style hm
  have hname : ∀ n ∈ g.members, ∀ c ∈ n.name.toList, isWordChar c :=
    fun n hn => (isConfined_of_parse h hg hn).name.2
  refine ⟨isFramed_resolve hsteady hstorage,
    fun m hm => isNamed_of_isUnbroken hsteady hm (hunbroken m hm),
    fun m hm => (newline_not_mem_shownLine_iff (newline_not_mem_literal hsteady hm)).mpr
      (hunbroken m hm), hstyle, fun m hm => ?_, fun m hm a ha => ?_, fun m hm => ?_⟩
  all_goals obtain ⟨n, hn, v, hsource, -, hliteral, -, htarget⟩ :=
    Group.exists_members_of_mem_resolve hm
  · exact hsource ▸ hname n hn
  · obtain ⟨t, ht, rfl⟩ := htarget a ha
    exact hname t ht
  · rw [hliteral, literalOf]
    split
    case h_1 w t hvalue => exact (isConfined_of_parse h hg hn).not_isWordStart_literal w t hvalue
    case h_2 => exact not_isWordStart_toString v

/-- **When the plain enumeration of a group of a header is sound.** Its names are distinct, and for
each alias either nothing happens to the member that it refers to, or another enumerator in front of
it has the name by which that member would be declared. -/
theorem isSound_lines_iff (h : Header.parse text = .ok s) (hg : g ∈ s.groups)
    (hstyle : r.style = .plainEnum) (hstorage : ∀ t ∈ r.storage, '\n' ∉ t.toList) :
    IsSound (textOf ((g.resolve {}).value.lines r {})) ↔
      ((g.resolve {}).value.members.map fun m => plainName m.sourceName).Nodup ∧
        ∀ pre m post a, (g.resolve {}).value.members = pre ++ m :: post → m.target = some a →
          Undisturbed g {} m a ∨ ∃ u ∈ pre, u.sourceName ≠ a.sourceName ∧
            plainName u.sourceName = plainName a.sourceName := by
  rw [(isReadable_resolve h hg hstyle hstorage).isSound_iff]
  refine and_congr_right fun _ => forall₄_congr fun pre m post a => ?_
  refine forall₂_congr fun hes ha => ?_
  constructor
  · rintro ⟨u, hu, hname⟩
    by_cases hsource : u.sourceName = a.sourceName
    · exact .inl (undisturbed_of_mem hes ha hu hsource)
    · exact .inr ⟨u, hu, hsource, hname⟩
  · rintro (hundisturbed | ⟨u, hu, -, hname⟩)
    · obtain ⟨u, hu, hsource, -⟩ := exists_mem_of_undisturbed hes ha hundisturbed
      exact ⟨u, hu, hsource ▸ rfl⟩
    · exact ⟨u, hu, hname⟩

/-- A header with an alias. -/
def tideHeader : String :=
  "enum Tide \x7b LOW = 1, EBB = LOW \x7d;"

/-- The group of `tideHeader`. -/
def tide : Group :=
  ⟨"Tide", .plain, 32, [⟨"LOW", .literal 1 "1", none⟩, ⟨"EBB", .reference "LOW", none⟩]⟩

theorem members_resolve_tide : (tide.resolve {}).value.members =
    [⟨"LOW", "Low", 1, "1", none, none, "011"⟩] ++
      ⟨"EBB", "Ebb", 1, "1", some ⟨"Low", "LOW"⟩, none, "10001EBB"⟩ :: [] := by
  have hsorted : tide.ordered {} = enumerators tide {} (tide.participants {}) :=
    List.mergeSort_of_pairwise (by decide +kernel)
  rw [Group.members_resolve, hsorted]
  decide +kernel

/-- The alias of `tideHeader` stands behind its target, and the names are distinct. -/
theorem isSound_lines_tide :
    parse tideHeader = .ok { groups := [tide] } ∧
      IsSound (textOf ((tide.resolve {}).value.lines
        { group := "Tide", table := true, style := .plainEnum } {})) := by
  have hparse : parse tideHeader = .ok { groups := [tide] } := by decide +kernel
  have hundisturbed := undisturbed_of_mem members_resolve_tide rfl (List.mem_singleton_self _) rfl
  refine ⟨hparse, (isSound_lines_iff hparse (List.mem_singleton_self _) rfl (by simp)).mpr
    ⟨?_, fun pre m post a hes ha => .inl ?_⟩⟩
  · rw [members_resolve_tide]
    decide +kernel
  · rw [members_resolve_tide] at hes
    rcases pre with - | ⟨u, pre⟩
    · obtain ⟨rfl, -⟩ := List.cons.inj hes
      cases ha
    · obtain ⟨-, hes⟩ := List.cons.inj hes
      rcases pre with - | ⟨u, pre⟩
      · obtain ⟨rfl, -⟩ := List.cons.inj hes
        cases ha
        exact hundisturbed
      · simp at hes

/-- Two enumerators whose names differ in their underscores alone, and an alias of the second. -/
def twinHeader : String :=
  "enum E \x7b A_B = 1, A__B = 2, C = A__B \x7d;"

/-- The group of `twinHeader`. -/
def twins : Group :=
  ⟨"E", .plain, 32, [⟨"A_B", .literal 1 "1", none⟩, ⟨"A__B", .literal 2 "2", none⟩,
    ⟨"C", .reference "A__B", none⟩]⟩

/-- The alias refers to an enumerator that is not declared. -/
theorem not_isSound_lines_twins :
    ∃ s, parse twinHeader = .ok s ∧ ∃ g ∈ s.groups,
      ¬ IsSound (textOf ((g.resolve {}).value.lines { group := "E", style := .plainEnum } {})) := by
  have hparse : parse twinHeader = .ok { groups := [twins] } := by decide +kernel
  have hsorted : twins.ordered {} = enumerators twins {} (twins.participants {}) :=
    List.mergeSort_of_pairwise (by decide +kernel)
  -- The second enumerator is left out, as its friendly name is taken; its alias is not.
  have hes : (twins.resolve {}).value.members =
      [⟨"A_B", "AB", 1, "1", none, none, "011"⟩,
        ⟨"C", "C", 2, "2", some ⟨"AB", "A__B"⟩, none, "10001C"⟩] := by
    rw [Group.members_resolve, hsorted]
    decide +kernel
  refine ⟨_, hparse, twins, List.mem_singleton_self _, fun h => ?_⟩
  have htext : readEnumerators (textOf ((twins.resolve {}).value.lines
      { group := "E", style := .plainEnum } {})) =
      [("LE_A_B".toList, "1".toList)] ++ ("LE_C".toList, "LE_A__B".toList) :: [] := by
    rw [(isReadable_resolve hparse (List.mem_singleton_self _) rfl
      (by simp)).readEnumerators_textOf, hes]
    decide +kernel
  have hdeclared := h.declared _ _ _ htext (by decide +kernel)
  revert hdeclared
  decide

end Rendering

end Enumerant
