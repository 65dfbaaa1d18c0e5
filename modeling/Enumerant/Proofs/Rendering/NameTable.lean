import Mathlib.Data.List.Find
import Enumerant.Proofs.Rendering.PlainNames
import Enumerant.Proofs.Rendering.ReadBack
import Enumerant.Proofs.Resolution.Account

/-!
# The table of names

The function that names the values of a scoped enumeration is a table, read here from the text: its
cases, with their labels, and the name for all other values (`readCases`, `readOther?`). The labels
are the texts of values, which may be decimal, hexadecimal or behind a minus sign; evaluated as
constant expressions they are the values of the members that stand for them, so that looking a value
up in the table is describing it (`describe_eq_readCases`).
-/

namespace Enumerant

open Text Header Resolution

/-! ### Members that stand for their values -/

namespace Enumeration

variable {e : Enumeration} {m : Enumerator} {v : ℤ}

/-- The member that stands for a value is the first with it that is no alias. -/
theorem find?_distinctFrom {seen : List ℤ} (hv : v ∉ seen) (ms : List Enumerator) :
    (distinctFrom seen ms).find? (·.value == v) =
      ms.find? fun m => m.target.isNone && m.value == v := by
  induction ms generalizing seen with
  | nil => rfl
  | cons m ms ih =>
    rw [distinctFrom, List.find?_cons]
    by_cases hvalue : m.value = v
    · cases htarget : m.target with
      | none => simp [hvalue, hv]
      | some a => simpa using ih hv
    · have hseen : v ∉ m.value :: seen := List.not_mem_cons_of_ne_of_not_mem (Ne.symm hvalue) hv
      have hne : (m.value == v) = false := beq_false_of_ne hvalue
      rw [hne, Bool.and_false]
      split
      · rw [List.find?_cons, hne]
        exact ih hseen
      · exact ih hv

/-- Members that stand for their values have distinct ones. -/
theorem nodup_values_distinctFrom (seen : List ℤ) (ms : List Enumerator) :
    ((distinctFrom seen ms).map Enumerator.value).Nodup ∧
      ∀ m ∈ distinctFrom seen ms, m.value ∉ seen := by
  induction ms generalizing seen with
  | nil => simp [distinctFrom]
  | cons m ms ih =>
    rw [distinctFrom]
    split
    case isTrue hm =>
      obtain ⟨hnodup, hfresh⟩ := ih (m.value :: seen)
      refine ⟨List.nodup_cons.mpr ⟨fun hmem => ?_, hnodup⟩, List.forall_mem_cons.mpr
        ⟨hm.2, fun u hu hseen => hfresh u hu (List.mem_cons_of_mem _ hseen)⟩⟩
      obtain ⟨u, hu, hvalue⟩ := List.mem_map.mp hmem
      exact hfresh u hu (hvalue ▸ List.mem_cons_self)
    case isFalse => exact ih seen

/-- Each value is stood for by one member only. -/
theorem find?_of_mem_distinct (hm : m ∈ e.distinct) :
    e.members.find? (fun u => u.target.isNone && u.value == m.value) = some m := by
  rw [← find?_distinctFrom List.not_mem_nil, ← distinct]
  have hsome : (e.distinct.find? (·.value == m.value)).isSome :=
    List.find?_isSome.mpr ⟨m, hm, beq_self_eq_true m.value⟩
  obtain ⟨u, hu⟩ := Option.isSome_iff_exists.mp hsome
  have hvalue : u.value = m.value := by simpa using List.find?_some hu
  obtain rfl := List.inj_on_of_nodup_map (nodup_values_distinctFrom [] e.members).1
    (List.mem_of_find?_eq_some hu) hm hvalue
  exact hu

/-- Every value of a member that is no alias is stood for. -/
theorem exists_mem_distinct (hm : m ∈ e.members) (htarget : m.target = none) :
    ∃ u ∈ e.distinct, u.value = m.value := by
  have hsome : (e.members.find? fun u => u.target.isNone && u.value == m.value).isSome :=
    List.find?_isSome.mpr ⟨m, hm, by simp [htarget]⟩
  rw [← find?_distinctFrom List.not_mem_nil, ← distinct] at hsome
  obtain ⟨u, hu⟩ := Option.isSome_iff_exists.mp hsome
  exact ⟨u, List.mem_of_find?_eq_some hu, by simpa using List.find?_some hu⟩

end Enumeration

namespace Rendering

variable {e : Enumeration} {r : Request} {g : Group} {m : Enumerator} {v : ℤ} {text : String}

/-! ### Reading tables -/

/-- The rows of the last table in a text: those between the remarks around it. Rows that a comment
makes stand in front of it. -/
def tableRows (text : String) : List String :=
  ((rows text).rtakeWhile (· != "// clang-format off")).takeWhile (· != "\t\t// clang-format on")

/-- The label and the name in a row that is a case. -/
def readCase? (row : String) : Option (String × String) :=
  (after? "case ".toList (trimLeft row.toList)).bind fun cs =>
    (after? ": return \"".toList (cs.dropWhile (· != ':'))).map fun ds =>
      (String.ofList (cs.takeWhile (· != ':')), String.ofList (ds.takeWhile (· != '"')))

/-- The name in a row that is for all other values. -/
def readDefault? (row : String) : Option String :=
  (after? "default: return \"".toList (trimLeft row.toList)).map fun cs =>
    String.ofList (cs.takeWhile (· != '"'))

/-- The cases of the last table in a text. -/
def readCases (text : String) : List (String × String) :=
  (tableRows text).filterMap readCase?

/-- The name that the last table in a text has for all other values. -/
def readOther? (text : String) : Option String :=
  (tableRows text).findSome? readDefault?

/-- The value of a label, read as a constant expression. -/
def labelValue? (label : String) : Option ℤ :=
  constant? ((tokens label.toList).map Token.lexeme)

/-! ### The rows of a table -/

/-- The texts in a case are found again in its row. -/
structure IsCase (c : String × String) : Prop where
  colon_not_mem : ':' ∉ c.1.toList
  quote_not_mem : '"' ∉ c.2.toList
  newline_not_mem : '\n' ∉ c.1.toList ∧ '\n' ∉ c.2.toList

theorem takeWhile_ne_eq_self {cs : List Char} {c : Char} (h : c ∉ cs) :
    cs.takeWhile (· != c) = cs :=
  List.takeWhile_eq_self_iff.mpr fun _ hd => bne_iff_ne.mpr (ne_of_mem_of_not_mem hd h)

theorem dropWhile_append_cons {cs ds : List Char} {c : Char} (h : c ∉ cs) :
    (cs ++ c :: ds).dropWhile (· != c) = c :: ds :=
  dropWhile_append_eq (fun _ hd => bne_iff_ne.mpr (ne_of_mem_of_not_mem hd h)) (by simp)

/-- The line of a case is read back. -/
theorem readCase?_caseLine {c : String × String} (h : IsCase c) :
    readCase? (caseLine c) = some c := by
  have hreturn : ':' :: (" return \"".toList ++ (c.2.toList ++ '"' :: [';'])) =
      ": return \"".toList ++ (c.2.toList ++ '"' :: [';']) := by
    simp
  rw [readCase?, trimLeft_caseLine, after?_append, Option.bind_some,
    dropWhile_append_cons h.colon_not_mem, hreturn, after?_append, Option.map_some, ← hreturn,
    takeWhile_append_cons (by simp), takeWhile_ne_eq_self h.colon_not_mem,
    takeWhile_append_cons (by simp), takeWhile_ne_eq_self h.quote_not_mem, String.ofList_toList,
    String.ofList_toList]

/-- It is no default. -/
theorem readDefault?_caseLine (c : String × String) : readDefault? (caseLine c) = none := by
  have hafter : ∀ cs, after? "default: return \"".toList ("case ".toList ++ cs) = none :=
    fun cs => rfl
  rw [readDefault?, trimLeft_caseLine, hafter, Option.map_none]

/-- The rows of a table stand between its remarks if no row behind them opens another table. -/
theorem tableRows_eq {front inner behind : List String}
    (hrows : rows text = front ++
      "// clang-format off" :: (inner ++ "\t\t// clang-format on" :: behind))
    (hoff : ∀ row ∈ inner ++ "\t\t// clang-format on" :: behind, row ≠ "// clang-format off")
    (hon : ∀ row ∈ inner, row ≠ "\t\t// clang-format on") :
    tableRows text = inner := by
  have hlast : (rows text).rtakeWhile (· != "// clang-format off") =
      inner ++ "\t\t// clang-format on" :: behind := by
    rw [hrows, List.rtakeWhile, List.reverse_append, List.reverse_cons, List.append_assoc,
      List.takeWhile_append_of_pos fun row hrow =>
        bne_iff_ne.mpr (hoff row (List.mem_reverse.mp hrow)),
      List.singleton_append, List.takeWhile_cons_of_neg (by simp), List.append_nil,
      List.reverse_reverse]
  rw [tableRows, hlast, List.takeWhile_append_of_pos fun row hrow => bne_iff_ne.mpr (hon row hrow),
    List.takeWhile_cons_of_neg (by simp), List.append_nil]

/-! ### The table of an enumeration -/

/-- The case of a member that stands for its value. -/
def tableCase (m : Enumerator) : String × String :=
  (alignRight 10 m.literal, m.friendlyName)

/-- The rows of the table of an enumeration. -/
def tableLines (e : Enumeration) : List String :=
  e.distinct.map (fun m => caseLine (tableCase m)) ++ ["\t\tdefault: return \"Unknown\";"]

/-- What stands behind the table of an enumeration. -/
def linesBehindTable (e : Enumeration) : List String :=
  ["\t\x7d", "\x7d"] ++ if e.kind = .bitmask then "" :: EnumClass.flagNames e {} else []

/-- The table is the part of a rendering that is not formatted. -/
theorem exists_lines_eq (e : Enumeration) (hstyle : r.style = .enumClass) (htable : r.table) :
    ∃ front, e.lines r {} = front ++ "// clang-format off" ::
      (tableLines e ++ "\t\t// clang-format on" :: linesBehindTable e) := by
  have hlines : e.lines r {} = EnumClass.lines e r {} := by rw [Enumeration.lines, hstyle]
  have hflags : (r.table ∧ e.kind = .bitmask) ↔ e.kind = .bitmask := and_iff_right htable
  have hcases : (e.distinct.map fun m => (alignRight 10 m.literal, m.friendlyName)).map caseLine =
      e.distinct.map fun m => caseLine (tableCase m) := List.map_map
  refine ⟨EnumClass.declaration e r {} ++
    (if e.kind = .bitmask then "" :: EnumClass.operators e {} else []) ++
    ["", "static constexpr char const* to_str(const " ++ e.typeName ++ "& tp) \x7b",
      "\tswitch (" ++ ("static_cast<" ++ storage e r ++ ">(tp)") ++ ") \x7b"], ?_⟩
  rw [hlines, EnumClass.lines, if_pos htable, EnumClass.valueNames, nameFunction_eq, hcases,
    tableLines, linesBehindTable]
  simp only [hflags, List.append_assoc, List.cons_append, List.nil_append]

/-- The line of a case is one line. -/
theorem newline_not_mem_caseLine {c : String × String} (h : IsCase c) :
    '\n' ∉ (caseLine c).toList := by
  simp [caseLine, h.newline_not_mem]

/-- No line of the function for combinations opens a table. -/
theorem ne_remark_of_mem_flagNames {l : String} (hl : l ∈ EnumClass.flagNames e {}) :
    l ≠ "// clang-format off" := by
  suffices hhead : l.toList.head? ≠ some '/' by
    rintro rfl
    exact hhead rfl
  rcases List.mem_append.mp hl with hl | hl
  · rcases List.mem_append.mp hl with hl | hl
    · obtain rfl := List.mem_singleton.mp hl
      simp
    · obtain ⟨l, -, rfl⟩ := List.mem_map.mp hl
      simp
  · obtain rfl := List.mem_singleton.mp hl
    decide

/-- No line of the table ends it. -/
theorem keepsRow_tableLines (hcases : ∀ m ∈ e.distinct, IsCase (tableCase m)) :
    ∀ l ∈ tableLines e, '\n' ∉ l.toList ∧ l ≠ "// clang-format off" ∧
      l ≠ "\t\t// clang-format on" := by
  refine List.forall_mem_append.mpr ⟨List.forall_mem_map.mpr fun m hm => ?_, by decide +kernel⟩
  have hthird : (caseLine (tableCase m)).toList[2]? = some 'c' := by simp [caseLine]
  refine ⟨newline_not_mem_caseLine (hcases m hm), fun heq => ?_, fun heq => ?_⟩
  all_goals
    rw [heq] at hthird
    revert hthird
    decide

theorem keepsRow_linesBehindTable (htype : '\n' ∉ e.typeName.toList)
    (hflags : '\n' ∉ e.flagsTypeName.toList) :
    ∀ l ∈ linesBehindTable e, '\n' ∉ l.toList ∧ l ≠ "// clang-format off" := by
  have hclose : ∀ l ∈ ["\t\x7d", "\x7d"], '\n' ∉ l.toList ∧ l ≠ "// clang-format off" := by
    decide +kernel
  rw [linesBehindTable]
  refine List.forall_mem_append.mpr ⟨hclose, ?_⟩
  split
  · refine List.forall_mem_cons.mpr ⟨by decide +kernel, fun l hl => ⟨?_, ?_⟩⟩
    · exact (isQuiet_flagNames hflags htype l hl).newline_not_mem
    · exact ne_remark_of_mem_flagNames hl
  · exact fun l hl => absurd hl List.not_mem_nil

/-- The rows of the table are found in the text. -/
theorem tableRows_textOf (hstyle : r.style = .enumClass) (htable : r.table)
    (htype : '\n' ∉ e.typeName.toList) (hflags : '\n' ∉ e.flagsTypeName.toList)
    (hcases : ∀ m ∈ e.distinct, IsCase (tableCase m)) :
    tableRows (textOf (e.lines r {})) = tableLines e := by
  obtain ⟨front, hlines⟩ := exists_lines_eq e hstyle htable
  have htableLines := keepsRow_tableLines hcases
  have hrest : ∀ l ∈ tableLines e ++ "\t\t// clang-format on" :: linesBehindTable e,
      '\n' ∉ l.toList ∧ l ≠ "// clang-format off" :=
    List.forall_mem_append.mpr ⟨fun l hl => ⟨(htableLines l hl).1, (htableLines l hl).2.1⟩,
      List.forall_mem_cons.mpr ⟨by decide +kernel, keepsRow_linesBehindTable htype hflags⟩⟩
  have hrows : rows (textOf (e.lines r {})) = front.flatMap rows ++ "// clang-format off" ::
      (tableLines e ++ "\t\t// clang-format on" :: (linesBehindTable e ++ [""])) := by
    rw [rows_textOf, hlines, List.flatMap_append, flatMap_rows_of_forall
      (List.forall_mem_cons.mpr ⟨by decide +kernel, fun l hl => (hrest l hl).1⟩)]
    simp only [List.append_assoc, List.cons_append]
  refine tableRows_eq hrows ?_ fun l hl => (htableLines l hl).2.2
  rw [← List.cons_append, ← List.append_assoc]
  exact List.forall_mem_append.mpr ⟨fun l hl => (hrest l hl).2, by decide +kernel⟩

/-- The cases that are read are those of the members that stand for their values. -/
theorem readCases_textOf (hstyle : r.style = .enumClass) (htable : r.table)
    (htype : '\n' ∉ e.typeName.toList) (hflags : '\n' ∉ e.flagsTypeName.toList)
    (hcases : ∀ m ∈ e.distinct, IsCase (tableCase m)) :
    readCases (textOf (e.lines r {})) = e.distinct.map tableCase ∧
      readOther? (textOf (e.lines r {})) = some "Unknown" := by
  have hdefault : readCase? "\t\tdefault: return \"Unknown\";" = none := by decide +kernel
  have hother : readDefault? "\t\tdefault: return \"Unknown\";" = some "Unknown" := by
    decide +kernel
  rw [readCases, readOther?, tableRows_textOf hstyle htable htype hflags hcases, tableLines]
  constructor
  · rw [List.filterMap_append, List.filterMap_map, List.filterMap_cons_none hdefault,
      List.filterMap_nil, List.append_nil, ← List.filterMap_eq_map]
    refine List.filterMap_congr fun m hm => ?_
    rw [Function.comp_apply, Function.comp_apply, readCase?_caseLine (hcases m hm)]
  · have hnone :
        (e.distinct.map fun m => caseLine (tableCase m)).findSome? readDefault? = none := by
      rw [List.findSome?_eq_none_iff]
      exact List.forall_mem_map.mpr fun m _ => readDefault?_caseLine (tableCase m)
    rw [List.findSome?_append, hnone, Option.none_or, List.findSome?_cons, hother]

/-! ### Labels -/

/-- Numerals are letters, digits and a minus. -/
theorem IsNumeral.not_mem {c : Char} (h : IsNumeral text v) (hc : c.isAlphanum = false)
    (hminus : c ≠ '-') : c ∉ text.toList := by
  intro hmem
  cases h with
  | plain h =>
    rw [h c hmem] at hc
    cases hc
  | negative h =>
    rw [String.toList_append] at hmem
    rcases List.mem_append.mp hmem with hmem | hmem
    · exact hminus (List.mem_singleton.mp hmem)
    · rw [h c hmem] at hc
      cases hc

/-- A numeral has its value as a constant expression. -/
theorem IsNumeral.exists_divides (h : IsNumeral text v) :
    ∃ ps, Piece.Divides text [] ps ∧ constant? (ps.flatMap Piece.lexemes) = some v := by
  have hend : EndsRun Char.isAlphanum [] := fun c hc => by cases hc
  cases h with
  | plain h hv => exact ⟨_, .number h hv hend, constant?_number v⟩
  | @negative text v h hv hfits =>
    have hvalue : constant? [.mark .minus, .integer v] = some (-v) :=
      checked_eq_some_iff.mpr ⟨hfits, rfl⟩
    exact ⟨_, (divides_minus _).append (.number h hv hend), hvalue⟩

/-- A label is evaluated to the value that its text stands for. -/
theorem labelValue?_alignRight (h : IsNumeral text v) (width : ℕ) :
    labelValue? (alignRight width text) = some v := by
  obtain ⟨ps, hps, hv⟩ := h.exists_divides
  have hlabel : Piece.Divides (alignRight width text) [] _ := (Piece.Divides.blanks _ _).append hps
  have hblank : ∀ n, (List.replicate n (⟨.blank, [' ']⟩ : Piece)).flatMap Piece.lexemes = [] := by
    simp [Piece.lexemes]
  refine means_iff_split.mpr ?_
  have hsplit := hlabel true
  rw [List.append_nil] at hsplit
  rw [hsplit, List.flatMap_append, List.flatMap_append, hblank, List.nil_append]
  simpa [Piece.split] using hv

/-! ### Tables of resolved groups -/

/-- The case of a member with a printable value can be read, and its label is the value. -/
theorem isCase_of_isNumeral (hliteral : IsNumeral m.literal m.value)
    (hname : ∀ c ∈ m.friendlyName.toList, isWordChar c) : IsCase (tableCase m) := by
  have hpadded : ∀ c, c.isAlphanum = false → c ≠ '-' → c ≠ ' ' →
      c ∉ (alignRight 10 m.literal).toList := by
    intro c hc hminus hspace hmem
    rw [alignRight, String.toList_append, String.toList_ofList] at hmem
    rcases List.mem_append.mp hmem with hmem | hmem
    · exact hspace (List.eq_of_mem_replicate hmem)
    · exact hliteral.not_mem hc hminus hmem
  exact ⟨hpadded ':' (by decide) (by decide) (by decide),
    fun hmem => absurd (hname _ hmem) (by decide),
    hpadded '\n' (by decide) (by decide) (by decide), not_mem_of_isWord hname⟩

/-- The case of a value is that of the member which stands for it. -/
theorem find?_map_tableCase {ms : List Enumerator}
    (h : ∀ m ∈ ms, labelValue? (tableCase m).1 = some m.value) (v : ℤ) :
    (ms.map tableCase).find? (fun c => labelValue? c.1 = some v) =
      (ms.find? (·.value == v)).map tableCase := by
  rw [List.find?_map]
  congr 1
  refine List.find?_congr fun m hm => ?_
  rw [Function.comp_apply, h m hm, Bool.eq_iff_iff]
  simp

/-- The table of a resolved group has a case for each member that stands for its value, and its
labels are the values. -/
theorem readCases_resolve (hname : IsWord g.name.toList)
    (hmember : ∀ m ∈ g.members, IsWord m.name.toList)
    (hvalues : ∀ m ∈ g.members, IsPrintableValue m.value)
    (hcounts : CountsWithin (g.participants {})) (hstyle : r.style = .enumClass)
    (htable : r.table) :
    let e := (g.resolve {}).value
    readCases (textOf (e.lines r {})) = e.distinct.map tableCase ∧
      readOther? (textOf (e.lines r {})) = some "Unknown" ∧
      ∀ m ∈ e.distinct, labelValue? (tableCase m).1 = some m.value := by
  intro e
  have hsteady : IsSteady g := by
    refine ⟨not_mem_of_isWord hname.2, fun m hm v t hv => ?_⟩
    exact (isNumeral_of_printable (hv ▸ hvalues m hm)).1.not_mem (by decide) (by decide)
  -- What type a request asks for matters in front of the table only.
  have hframed : IsFramed e { group := "" } := isFramed_resolve hsteady (by simp)
  have hliteral : ∀ m ∈ e.distinct, IsNumeral m.literal m.value := fun m hm =>
    isNumeral_of_mem_resolve hvalues hcounts (mem_distinctFrom hm).1 (mem_distinctFrom hm).2
  have hfriendly : ∀ m ∈ e.distinct, ∀ c ∈ m.friendlyName.toList, isWordChar c := by
    intro m hm
    obtain ⟨n, hn, -, -, hfriendly, -⟩ :=
      Group.exists_members_of_mem_resolve (mem_distinctFrom hm).1
    rw [hfriendly]
    exact isWordChar_friendlyName (hmember n hn).2
  obtain ⟨hcases, hother⟩ := readCases_textOf hstyle htable hframed.typeName hframed.flagsTypeName
    fun m hm => isCase_of_isNumeral (hliteral m hm) (hfriendly m hm)
  exact ⟨hcases, hother, fun m hm => labelValue?_alignRight (hliteral m hm) 10⟩

/-- **The table of names agrees with descriptions.** The labels of its cases are evaluated to
distinct values, and a value is described by the name in its case, or else by that for all other
values. No alias has a case, every other member has one for its value, and each case names the first
of these with its value. -/
theorem describe_eq_readCases (g : Group) (r : Request) (hname : IsWord g.name.toList)
    (hmember : ∀ m ∈ g.members, IsWord m.name.toList)
    (hvalues : ∀ m ∈ g.members, IsPrintableValue m.value)
    (hcounts : CountsWithin (g.participants {})) (hstyle : r.style = .enumClass)
    (htable : r.table) :
    let e := (g.resolve {}).value
    let text := textOf (e.lines r {})
    (∃ values : List ℤ,
      (readCases text).map (fun c => labelValue? c.1) = values.map some ∧ values.Nodup) ∧
    (∃ other, readOther? text = some other ∧ ∀ v : ℤ, e.describe {} v =
      match (readCases text).find? (fun c => labelValue? c.1 = some v) with
      | some c => c.2
      | none => other) ∧
    (∀ m ∈ e.members, m.target.isSome → ∀ c ∈ readCases text, c.2 ≠ m.friendlyName) ∧
    (∀ m ∈ e.members, m.target = none → ∃ c ∈ readCases text, labelValue? c.1 = some m.value) ∧
    ∀ c ∈ readCases text, ∀ v : ℤ, labelValue? c.1 = some v →
      ∃ m, e.members.find? (fun m => m.target.isNone && m.value == v) = some m ∧
        c.2 = m.friendlyName := by
  intro e text
  obtain ⟨hcases, hother, hlabel⟩ :=
    readCases_resolve hname hmember hvalues hcounts hstyle htable
  have hof : ∀ c ∈ readCases text, ∃ m ∈ e.distinct, tableCase m = c := fun c hc =>
    List.mem_map.mp (hcases ▸ hc)
  refine ⟨⟨e.distinct.map Enumerator.value, ?_, (Enumeration.nodup_values_distinctFrom [] _).1⟩,
    ⟨_, hother, fun v => ?_⟩, fun m hm htarget c hc heq => ?_, fun m hm htarget => ?_,
    fun c hc v hv => ?_⟩
  · rw [hcases, List.map_map, List.map_map]
    exact List.map_congr_left hlabel
  · rw [hcases, find?_map_tableCase hlabel, Enumeration.describe]
    cases e.distinct.find? (·.value == v) <;> rfl
  · obtain ⟨u, hu, rfl⟩ := hof c hc
    -- No two members have one friendly name, so the alias would be the member with the case.
    have hnodup : (e.members.map Enumerator.friendlyName).Nodup := (nodup_friendlyNames [] _).1
    obtain rfl := List.inj_on_of_nodup_map hnodup (mem_distinctFrom hu).1 hm heq
    rw [(mem_distinctFrom hu).2] at htarget
    cases htarget
  · obtain ⟨u, hu, hvalue⟩ := Enumeration.exists_mem_distinct hm htarget
    exact ⟨tableCase u, hcases ▸ List.mem_map_of_mem hu, hvalue ▸ hlabel u hu⟩
  · obtain ⟨u, hu, rfl⟩ := hof c hc
    obtain rfl := Option.some.inj ((hlabel u hu).symm.trans hv)
    exact ⟨u, Enumeration.find?_of_mem_distinct hu, rfl⟩

/-- Values of every kind: one below zero, two that are the same, one that is counted on, a single
bit and an alias. -/
def strides : Group where
  name := "Stride"
  kind := .plain
  width := 64
  members :=
    [⟨"STRIDE_BACK", .decimal (-3), none⟩, ⟨"STRIDE_NONE", .decimal 0, none⟩,
      ⟨"STRIDE_ZERO", .decimal 0, none⟩, ⟨"STRIDE_ONE", .implicit, none⟩,
      ⟨"STRIDE_FAR", Registry.bitValue 40 64, none⟩,
      ⟨"STRIDE_REST", .reference "STRIDE_NONE", none⟩]

/-- Of the members with the value zero the first has the case. -/
theorem readCases_strides :
    IsWord strides.name.toList ∧ (∀ m ∈ strides.members, IsWord m.name.toList) ∧
      (∀ m ∈ strides.members, IsPrintableValue m.value) ∧
      CountsWithin (strides.participants {}) ∧
      ∀ c ∈ readCases (textOf ((strides.resolve {}).value.lines
          { group := "Stride", table := true } {})),
        c.2 ≠ "Rest" ∧ (labelValue? c.1 = some 0 → c.2 = "None") := by
  have hname : IsWord strides.name.toList := by decide +kernel
  have hmember : ∀ m ∈ strides.members, IsWord m.name.toList := by decide +kernel
  have hvalues : ∀ m ∈ strides.members, IsPrintableValue m.value := by
    refine List.forall_mem_cons.mpr ⟨.decimal (by decide), List.forall_mem_cons.mpr
      ⟨.decimal (by decide), List.forall_mem_cons.mpr ⟨.decimal (by decide),
        List.forall_mem_cons.mpr ⟨.implicit, List.forall_mem_cons.mpr
          ⟨.bit (by decide) 64, List.forall_mem_singleton.mpr (.reference _)⟩⟩⟩⟩⟩
  have hcounts : CountsWithin (strides.participants {}) :=
    countsWithin_of_settled (strides.nodup_names_participants {}) (by decide +kernel)
  have hsorted : strides.ordered {} = enumerators strides {} (strides.participants {}) :=
    List.mergeSort_of_pairwise (by decide +kernel)
  have hrest : ∃ m ∈ (strides.resolve {}).value.members,
      m.target.isSome ∧ m.friendlyName = "Rest" := by
    rw [Group.members_resolve, hsorted]
    decide +kernel
  have hzero : ((strides.resolve {}).value.members.find? fun m =>
      m.target.isNone && m.value == 0).map Enumerator.friendlyName = some "None" := by
    rw [Group.members_resolve, hsorted]
    decide +kernel
  obtain ⟨-, -, halias, -, hfirst⟩ := describe_eq_readCases strides
    { group := "Stride", table := true } hname hmember hvalues hcounts rfl rfl
  refine ⟨hname, hmember, hvalues, hcounts, fun c hc => ⟨?_, fun hlabel => ?_⟩⟩
  · obtain ⟨m, hm, htarget, hfriendly⟩ := hrest
    exact hfriendly ▸ halias m hm htarget c hc
  · obtain ⟨m, hm, hcase⟩ := hfirst c hc 0 hlabel
    rw [hm] at hzero
    exact hcase.trans (Option.some.inj hzero)

end Rendering

end Enumerant
