import Enumerant.Proofs.Rendering.Blocks
import Enumerant.Proofs.Text.Rows

/-!
# The lines of a block by their parts

A block is what stands in front of a declaration, the line that opens it, a line for each member,
the closing and the functions behind (`lines_eq`). All lines but those of the members and the
closing are quiet: each keeps to its row, closes no enumeration and is no marker. For the functions
that takes names of members that keep to their rows, too, as they are told there.
-/

namespace Enumerant

open Text

namespace Rendering

variable {e : Enumeration} {r : Request} {m : Enumerator} {l front rest : String} {ls : List String}

/-! ### Parts -/

/-- The line of a member in a style. -/
def shownLine (style : Style) (settings : Settings) (m : Enumerator) : String :=
  memberLine settings.indent (shownName style settings m.sourceName m.friendlyName)
    (shownValue style settings m) m.comment

/-- What stands in front of the declaration. -/
def linesBefore (e : Enumeration) (r : Request) : List String :=
  match r.style, e.kind with
  | .enumClass, .bitmask => ["using " ++ e.flagsTypeName ++ " = " ++ storage e r ++ ";"]
  | _, _ => []

/-- The line that opens the declaration. -/
def openingLine (e : Enumeration) (r : Request) : String :=
  match r.style, e.kind with
  | .enumClass, .bitmask => "enum class " ++ e.typeName ++ " : " ++ e.flagsTypeName ++ " \x7b"
  | .enumClass, .plain => "enum class " ++ e.typeName ++ " : " ++ storage e r ++ " \x7b"
  | .plainEnum, _ => "enum " ++ PlainEnum.typeName e {} ++ " : " ++ storage e r ++ " \x7b"

/-- The functions behind the declaration. -/
def linesBehind (e : Enumeration) (r : Request) : List String :=
  match r.style with
  | .enumClass =>
    (if e.kind = .bitmask then "" :: EnumClass.operators e {} else [])
      ++ (if r.table then "" :: EnumClass.valueNames e r {} else [])
      ++ (if r.table ∧ e.kind = .bitmask then "" :: EnumClass.flagNames e {} else [])
  | .plainEnum => if r.table then "" :: PlainEnum.valueNames e {} else []

/-- A rendering is a body of members with lines in front and behind. -/
theorem lines_eq (e : Enumeration) (r : Request) :
    e.lines r {} = linesBefore e r ++ openingLine e r ::
      (e.members.map (shownLine r.style {}) ++ "\x7d;" :: linesBehind e r) := by
  unfold Enumeration.lines linesBefore openingLine linesBehind
  cases r.style with
  | enumClass =>
    cases hkind : e.kind <;>
      simp only [EnumClass.lines, EnumClass.declaration, hkind, List.append_assoc] <;> rfl
  | plainEnum =>
    simp only [PlainEnum.lines, PlainEnum.declaration, List.append_assoc]
    rfl

/-! ### Quiet lines -/

/-- A line that keeps to its row, closes no enumeration and is no marker. -/
structure IsQuiet (l : String) : Prop where
  newline_not_mem : '\n' ∉ l.toList
  ne_close : l ≠ "\x7d;"
  not_marker : Marker.parse? (l ++ "\n").toList = none

instance (l : String) : Decidable (IsQuiet l) :=
  decidable_of_iff ('\n' ∉ l.toList ∧ l ≠ "\x7d;" ∧ Marker.parse? (l ++ "\n").toList = none)
    ⟨fun ⟨h₁, h₂, h₃⟩ => ⟨h₁, h₂, h₃⟩, fun ⟨h₁, h₂, h₃⟩ => ⟨h₁, h₂, h₃⟩⟩

/-- The first character of a text that is no blank. -/
def firstSolid? (s : String) : Option Char :=
  (trimLeft s.toList).head?

/-- What comes first in a line stays first. -/
theorem firstSolid?_append {c : Char} (h : firstSolid? front = some c) (rest : String) :
    firstSolid? (front ++ rest) = some c := by
  obtain ⟨cs, hcs⟩ := List.head?_eq_some_iff.mp h
  rw [firstSolid?, String.toList_append, trimLeft, List.dropWhile_append, ← trimLeft, hcs]
  rfl

/-- A line that does not begin as a comment is no marker. -/
theorem parse?_eq_none {c : Char} (h : firstSolid? l = some c) (hc : c ≠ '/') :
    Marker.parse? l.toList = none := by
  obtain ⟨cs, hcs⟩ := List.head?_eq_some_iff.mp h
  have hafter : after? "// Codegen <".toList (c :: cs) = none := by
    have htext : "// Codegen <".toList = '/' :: "/ Codegen <".toList := rfl
    rw [htext, after?, if_neg (by simpa using hc.symm)]
  rw [Marker.parse?, hcs, hafter]

/-- What a line begins with shows that it is quiet, if the rest of it keeps to its row. -/
theorem IsQuiet.of_front (hfront : '\n' ∉ front.toList ∧
      (firstSolid? front).any fun c => c != '/' && c != '\x7d')
    (hrest : '\n' ∉ rest.toList) : IsQuiet (front ++ rest) := by
  obtain ⟨c, hsolid, hc⟩ := (Option.any_eq_true _ _).mp hfront.2
  simp only [Bool.and_eq_true, bne_iff_ne] at hc
  have hfirst := firstSolid?_append hsolid rest
  refine ⟨?_, ?_, parse?_eq_none (firstSolid?_append hfirst "\n") hc.1⟩
  · rw [String.toList_append, List.mem_append]
    exact not_or.mpr ⟨hfront.1, hrest⟩
  · intro heq
    rw [heq] at hfirst
    cases hfirst
    exact hc.2 rfl

/-! ### Functions -/

/-- The line of a case with a label and a name. -/
def caseLine (c : String × String) : String :=
  "\t\tcase " ++ c.1 ++ ": return \"" ++ c.2 ++ "\";"

/-- A case is its label, and the name in quotes. -/
theorem trimLeft_caseLine (c : String × String) : trimLeft (caseLine c).toList =
    "case ".toList ++
      (c.1.toList ++ ':' :: (" return \"".toList ++ (c.2.toList ++ '"' :: [';']))) := by
  simp [caseLine, trimLeft, isBlank]

/-- The function that names values, line by line. -/
theorem nameFunction_eq (typeName selector : String) (cases : List (String × String)) :
    nameFunction {} typeName selector cases =
      ["static constexpr char const* to_str(const " ++ typeName ++ "& tp) \x7b",
        "\tswitch (" ++ selector ++ ") \x7b", "// clang-format off"] ++
      cases.map caseLine ++
      ["\t\tdefault: return \"Unknown\";", "\t\t// clang-format on", "\t\x7d", "\x7d"] :=
  rfl

/-- The function that names values opens no body and is no marker. -/
theorem isQuiet_nameFunction {typeName selector : String} {cases : List (String × String)}
    (htype : '\n' ∉ typeName.toList) (hselector : '\n' ∉ selector.toList)
    (hcases : ∀ c ∈ cases, '\n' ∉ c.1.toList ∧ '\n' ∉ c.2.toList) :
    ∀ l ∈ nameFunction {} typeName selector cases, IsQuiet l := by
  have hhead : IsQuiet
      ("static constexpr char const* to_str(const " ++ (typeName ++ "& tp) \x7b")) :=
    .of_front (by decide +kernel) (by simpa using htype)
  have hswitch : IsQuiet ("\tswitch (" ++ (selector ++ ") \x7b")) :=
    .of_front (by decide +kernel) (by simpa using hselector)
  have hcase : ∀ c ∈ cases, IsQuiet ("\t\tcase " ++ (c.1 ++ (": return \"" ++ (c.2 ++ "\";")))) :=
    fun c hc => .of_front (by decide +kernel) (by simpa using hcases c hc)
  have hfront : ∀ l ∈ ["// clang-format off"], IsQuiet l := by decide +kernel
  have hend : ∀ l ∈
      ["\t\tdefault: return \"Unknown\";", "\t\t// clang-format on", "\t\x7d", "\x7d"],
      IsQuiet l := by
    decide +kernel
  intro l hl
  rcases List.mem_append.mp hl with hl | hl
  · rcases List.mem_append.mp hl with hl | hl
    · rcases List.mem_cons.mp hl with rfl | hl
      · simpa [String.append_assoc] using hhead
      · rcases List.mem_cons.mp hl with rfl | hl
        · simpa [String.append_assoc] using hswitch
        · exact hfront l hl
    · obtain ⟨c, hc, rfl⟩ := List.mem_map.mp hl
      simpa [← String.append_assoc] using hcase c hc
  · exact hend l hl

theorem forall_isQuiet_indented (h : ∀ l ∈ ls, IsQuiet l) : ∀ l ∈ indented "\t" ls, IsQuiet l := by
  intro l hl
  obtain ⟨l, hmem, rfl⟩ := List.mem_map.mp hl
  obtain ⟨hline, -, hmarker⟩ := h l hmem
  refine ⟨by simpa using hline, fun heq => ?_, ?_⟩
  · have hhead := congrArg (fun s => s.toList.head?) heq
    simp at hhead
  · have htrim : trimLeft ("\t" ++ l ++ "\n").toList = trimLeft (l ++ "\n").toList := by
      simp [trimLeft, isBlank]
    rw [Marker.parse?, htrim, ← Marker.parse?, hmarker]

/-- Nor does an operator. -/
theorem isQuiet_operator {op leftType operand : String} (hop : '\n' ∉ op.toList)
    (hflags : '\n' ∉ e.flagsTypeName.toList) (htype : '\n' ∉ e.typeName.toList)
    (hleft : '\n' ∉ leftType.toList) (hoperand : '\n' ∉ operand.toList) :
    ∀ l ∈ EnumClass.operator e {} op leftType operand, IsQuiet l := by
  have hhead : IsQuiet ("constexpr " ++ (e.flagsTypeName ++ (" operator" ++ (op ++ ("(" ++
      (leftType ++ (" const& lhs, " ++ (e.typeName ++ " const& rhs) noexcept \x7b")))))))) :=
    .of_front (by decide +kernel) (by simp [hop, hflags, htype, hleft])
  have hreturn : IsQuiet ("\treturn static_cast<const " ++ (e.flagsTypeName ++ (">(" ++ (operand ++
      (" " ++ (op ++ (" static_cast<" ++ (e.flagsTypeName ++ ">(rhs));")))))))) :=
    .of_front (by decide +kernel) (by simp [hop, hflags, hoperand])
  have hclose : IsQuiet "\x7d" := by decide +kernel
  simp only [← String.append_assoc] at hhead hreturn
  exact List.forall_mem_cons.mpr ⟨hhead, List.forall_mem_cons.mpr
    ⟨hreturn, List.forall_mem_singleton.mpr hclose⟩⟩

theorem isQuiet_blank : IsQuiet "" := by decide +kernel

/-- Nor do all operators. -/
theorem isQuiet_operators (hflags : '\n' ∉ e.flagsTypeName.toList)
    (htype : '\n' ∉ e.typeName.toList) : ∀ l ∈ EnumClass.operators e {}, IsQuiet l := by
  have hcast : '\n' ∉ ("static_cast<" ++ e.flagsTypeName ++ ">(lhs)").toList := by simp [hflags]
  have hblank : ∀ l ∈ [""], IsQuiet l := List.forall_mem_singleton.mpr isQuiet_blank
  have hor : '\n' ∉ "|".toList := by decide
  have hand : '\n' ∉ "&".toList := by decide
  have hlhs : '\n' ∉ "lhs".toList := by decide
  exact List.forall_mem_append.mpr ⟨List.forall_mem_append.mpr ⟨List.forall_mem_append.mpr
    ⟨List.forall_mem_append.mpr ⟨isQuiet_operator hor hflags htype htype hcast, hblank⟩,
      isQuiet_operator hor hflags htype hflags hlhs⟩, hblank⟩,
    isQuiet_operator hand hflags htype htype hcast⟩

/-- Nor does the function that names flags. -/
theorem isQuiet_flagNames (hflags : '\n' ∉ e.flagsTypeName.toList)
    (htype : '\n' ∉ e.typeName.toList) : ∀ l ∈ EnumClass.flagNames e {}, IsQuiet l := by
  have hsnake : '\n' ∉ Naming.snake e.flagsTypeName.toList := fun hmem =>
    Naming.forall_snake spellable_ne_newline (fun c hc => ne_of_mem_of_not_mem hc hflags) _ hmem rfl
  have hhead : IsQuiet ("static std::string to_string_" ++
      (String.ofList (Naming.snake e.flagsTypeName.toList) ++ ("(const " ++ (e.flagsTypeName ++
        "& tp) \x7b")))) :=
    .of_front (by decide +kernel) (by simp [hsnake, hflags])
  have hname : IsQuiet ("result.append(to_str(" ++ (e.typeName ++ "(1ULL << bit_pos)));")) :=
    .of_front (by decide +kernel) (by simp [htype])
  simp only [← String.append_assoc] at hhead hname
  have hbit : ∀ l ∈ ["if (false == result.empty()) \x7b", "\tresult.append(\" | \");", "\x7d",
      "result.append(to_str(" ++ e.typeName ++ "(1ULL << bit_pos)));"], IsQuiet l := by
    have hfixed : ∀ l ∈ ["if (false == result.empty()) \x7b", "\tresult.append(\" | \");", "\x7d"],
        IsQuiet l := by
      decide +kernel
    exact List.forall_mem_append.mpr ⟨hfixed, List.forall_mem_singleton.mpr hname⟩
  have hloop : ∀ l ∈ ["uint64_t flags = tp;", "std::string result;", "int bit_pos = 0;",
      "while (flags) \x7b"], IsQuiet l := by
    decide +kernel
  have htest : ∀ l ∈ ["if (flags & 1) \x7b"], IsQuiet l := by decide +kernel
  have hstep : ∀ l ∈ ["\x7d", "flags >>= 1;", "bit_pos++;"], IsQuiet l := by decide +kernel
  have hresult : ∀ l ∈ ["\x7d", "return result;"], IsQuiet l := by decide +kernel
  have hclose : ∀ l ∈ ["\x7d"], IsQuiet l := by decide +kernel
  have hbody := List.forall_mem_append.mpr ⟨List.forall_mem_append.mpr
    ⟨htest, forall_isQuiet_indented hbit⟩, hstep⟩
  exact List.forall_mem_append.mpr ⟨List.forall_mem_append.mpr
    ⟨List.forall_mem_singleton.mpr hhead, forall_isQuiet_indented (List.forall_mem_append.mpr
      ⟨List.forall_mem_append.mpr ⟨hloop, forall_isQuiet_indented hbody⟩, hresult⟩)⟩, hclose⟩

/-! ### Quiet parts -/

/-- The names of an enumeration keep to their rows, and so does the type that a request asks for. -/
structure IsFramed (e : Enumeration) (r : Request) : Prop where
  typeName : '\n' ∉ e.typeName.toList
  flagsTypeName : '\n' ∉ e.flagsTypeName.toList
  storage : ∀ t ∈ r.storage, '\n' ∉ t.toList

theorem newline_not_mem_storage (h : ∀ t ∈ r.storage, '\n' ∉ t.toList) (e : Enumeration) :
    '\n' ∉ (storage e r).toList := by
  cases hstorage : r.storage with
  | none => exact not_mem_of_isWord (isWord_storage e hstorage).2
  | some t =>
    rw [storage, hstorage]
    exact h t hstorage

theorem newline_not_mem_plainTypeName (h : '\n' ∉ e.typeName.toList) :
    '\n' ∉ (PlainEnum.typeName e {}).toList := by
  obtain ⟨cs, hcs, hsuffix⟩ := exists_toList_plainTypeName e
  have hmem : '\n' ∉ cs := fun hc => h (hsuffix.mem hc)
  simp [hcs, hmem]

/-- What stands in front of a body is quiet, and opens none. -/
theorem isQuiet_linesBefore (h : IsFramed e r) :
    ∀ l ∈ linesBefore e r, IsQuiet l ∧ opensBody l = false := by
  have husing : IsQuiet ("using " ++ (e.flagsTypeName ++ (" = " ++ (storage e r ++ ";")))) :=
    .of_front (by decide +kernel)
      (by simp [h.flagsTypeName, newline_not_mem_storage h.storage e])
  simp only [← String.append_assoc] at husing
  unfold linesBefore
  split
  · exact List.forall_mem_singleton.mpr ⟨husing, opensBody_append _ (by decide)⟩
  · exact fun l hl => absurd hl List.not_mem_nil

/-- The line that opens a body is quiet apart from that. -/
theorem isQuiet_openingLine (h : IsFramed e r) :
    IsQuiet (openingLine e r) ∧ opensBody (openingLine e r) := by
  have hstorage := newline_not_mem_storage h.storage e
  have hscoped : ∀ base, '\n' ∉ base.toList →
      IsQuiet ("enum class " ++ e.typeName ++ " : " ++ base ++ " \x7b") := by
    intro base hbase
    have hline : IsQuiet ("enum class " ++ (e.typeName ++ (" : " ++ (base ++ " \x7b")))) :=
      .of_front (by decide +kernel) (by simp [h.typeName, hbase])
    simpa only [← String.append_assoc] using hline
  have hplain : IsQuiet ("enum " ++ (PlainEnum.typeName e {} ++ (" : " ++ (storage e r ++
      " \x7b")))) :=
    .of_front (by decide +kernel) (by simp [newline_not_mem_plainTypeName h.typeName, hstorage])
  simp only [← String.append_assoc] at hplain
  unfold openingLine
  split
  · exact ⟨hscoped _ h.flagsTypeName, opensBody_append _ (by decide)⟩
  · exact ⟨hscoped _ hstorage, opensBody_append _ (by decide)⟩
  · exact ⟨hplain, opensBody_append _ (by decide)⟩

/-- A member whose name in a style, friendly name and literal keep to their rows. -/
structure IsNamed (style : Style) (m : Enumerator) : Prop where
  shownName : '\n' ∉ (shownName style {} m.sourceName m.friendlyName).toList
  friendlyName : '\n' ∉ m.friendlyName.toList
  literal : '\n' ∉ m.literal.toList

/-- What stands behind a body is quiet. -/
theorem isQuiet_linesBehind (h : IsFramed e r) (hms : ∀ m ∈ e.members, IsNamed r.style m) :
    ∀ l ∈ linesBehind e r, IsQuiet l := by
  have hpart : ∀ (c : Prop) [Decidable c] (ls : List String), (∀ l ∈ ls, IsQuiet l) →
      ∀ l ∈ (if c then "" :: ls else []), IsQuiet l := by
    intro c _ ls hls
    split
    · exact List.forall_mem_cons.mpr ⟨isQuiet_blank, hls⟩
    · exact fun l hl => absurd hl List.not_mem_nil
  have hdistinct : ∀ m ∈ e.distinct, IsNamed r.style m :=
    fun m hm => hms m (mem_distinctFrom hm).1
  unfold linesBehind
  cases hstyle : r.style with
  | enumClass =>
    have hselector : '\n' ∉ ("static_cast<" ++ storage e r ++ ">(tp)").toList := by
      simp [newline_not_mem_storage h.storage e]
    have hvalues : ∀ l ∈ EnumClass.valueNames e r {}, IsQuiet l := by
      refine isQuiet_nameFunction h.typeName hselector fun c hc => ?_
      obtain ⟨m, hm, rfl⟩ := List.mem_map.mp hc
      exact ⟨by simp [alignRight, (hdistinct m hm).literal], (hdistinct m hm).friendlyName⟩
    exact List.forall_mem_append.mpr ⟨List.forall_mem_append.mpr
      ⟨hpart _ _ (isQuiet_operators h.flagsTypeName h.typeName), hpart _ _ hvalues⟩,
      hpart _ _ (isQuiet_flagNames h.flagsTypeName h.typeName)⟩
  | plainEnum =>
    refine hpart _ _ (isQuiet_nameFunction (newline_not_mem_plainTypeName h.typeName) (by decide)
      fun c hc => ?_)
    obtain ⟨m, hm, rfl⟩ := List.mem_map.mp hc
    have hshown := (hdistinct m hm).shownName
    rw [hstyle] at hshown
    exact ⟨hshown, (hdistinct m hm).friendlyName⟩

end Rendering

end Enumerant
