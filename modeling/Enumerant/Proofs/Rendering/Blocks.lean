import Enumerant.Proofs.Rendering.Declaration

/-!
# Reading back blocks

The block of generated code for an enumeration is read back as one group, in either style and with
or without the functions that name its values (`parse_lines`), so long as its names are words, its
comments keep to their lines and the texts of its values are numerals (`Readable`).
-/

namespace Enumerant

open Text Header

namespace Rendering

variable {e : Enumeration} {r : Request} {m : Enumerator}

/-- An enumeration whose declaration can be read back. -/
structure Readable (e : Enumeration) : Prop where
  typeName : IsWord e.typeName.toList
  flagsTypeName : IsWord e.flagsTypeName.toList
  sourceName : ∀ m ∈ e.members, ∀ c ∈ m.sourceName.toList, isWordChar c
  friendlyName : ∀ m ∈ e.members, ∀ c ∈ m.friendlyName.toList, isWordChar c
  target : ∀ m ∈ e.members, ∀ t ∈ m.target,
    (∀ c ∈ t.sourceName.toList, isWordChar c) ∧ ∀ c ∈ t.friendlyName.toList, isWordChar c
  literal : ∀ m ∈ e.members, m.target = none → IsNumeral m.literal m.value
  comment : ∀ m ∈ e.members, ∀ text ∈ m.comment, '\n' ∉ text.toList

/-! ### Names in a style -/

/-- The name of the type in a style. -/
def shownTypeName (style : Style) (settings : Settings) (e : Enumeration) : String :=
  match style with
  | .enumClass => e.typeName
  | .plainEnum => PlainEnum.typeName e settings

/-- The name of a member in a style, given its names in the source and within the group. -/
def shownName (style : Style) (settings : Settings) (sourceName friendlyName : String) : String :=
  match style with
  | .enumClass => settings.memberPrefix ++ friendlyName
  | .plainEnum => PlainEnum.memberName settings sourceName

/-- The member as which an enumerator is read back: an alias refers to its target, and any other
enumerator has its value with the text that stands for it. -/
def shownMember (style : Style) (settings : Settings) (m : Enumerator) : Member where
  name := shownName style settings m.sourceName m.friendlyName
  value := match m.target with
    | some target => .reference (shownName style settings target.sourceName target.friendlyName)
    | none => .literal m.value m.literal
  comment := shownComment m.comment

theorem isWord_memberName {sourceName : String} (h : ∀ c ∈ sourceName.toList, isWordChar c) :
    IsWord (PlainEnum.memberName {} sourceName).toList := by
  have htag : IsWord (upper "LE".toList) := ⟨⟨'L', rfl, rfl⟩, List.all_eq_true.mp rfl⟩
  rw [PlainEnum.memberName, String.toList_ofList]
  exact Naming.isWord_taggedMemberName htag h

theorem exists_toList_memberName (sourceName : String) :
    ∃ cs, (PlainEnum.memberName {} sourceName).toList = 'L' :: cs := by
  have htag : upper ({} : Settings).projectTag.toList = ['L', 'E'] := by decide +kernel
  rw [PlainEnum.memberName, String.toList_ofList, Naming.taggedMemberName, htag]
  exact ⟨_, rfl⟩

theorem exists_toList_plainTypeName (e : Enumeration) :
    ∃ cs, (PlainEnum.typeName e {}).toList = 'L' :: 'e' :: cs ∧ cs <:+ e.typeName.toList := by
  have htag : Naming.title ({} : Settings).projectTag.toList = ['L', 'e'] := by decide +kernel
  rw [PlainEnum.typeName, String.toList_ofList, Naming.taggedTypeName, htag]
  exact ⟨_, rfl, Naming.typeName_suffix _ _⟩

theorem isWord_plainTypeName (h : Readable e) : IsWord (PlainEnum.typeName e {}).toList := by
  obtain ⟨cs, hcs, hsuffix⟩ := exists_toList_plainTypeName e
  rw [hcs]
  exact isWord_cons rfl (List.forall_mem_cons.mpr
    ⟨rfl, fun c hc => h.typeName.2 c (hsuffix.mem hc)⟩)

theorem isWord_shownName (style : Style) {sourceName friendlyName : String}
    (hsource : ∀ c ∈ sourceName.toList, isWordChar c)
    (hfriendly : ∀ c ∈ friendlyName.toList, isWordChar c) :
    IsWord (shownName style {} sourceName friendlyName).toList := by
  cases style with
  | enumClass =>
    have hprefix : IsWord "e".toList := ⟨⟨'e', rfl, rfl⟩, List.all_eq_true.mp rfl⟩
    rw [shownName, String.toList_append]
    exact hprefix.append hfriendly
  | plainEnum => exact isWord_memberName hsource

theorem isWord_storage (e : Enumeration) (hstorage : r.storage = none) :
    IsWord (storage e r).toList := by
  have hsign : ∀ signed : Bool, IsWord (if signed then "int" else "uint").toList := by
    intro signed
    cases signed
    · exact ⟨⟨'u', rfl, rfl⟩, List.all_eq_true.mp rfl⟩
    · exact ⟨⟨'i', rfl, rfl⟩, List.all_eq_true.mp rfl⟩
  have hwidth : ∀ c ∈ (toString e.width).toList, isWordChar c := by
    intro c hc
    rw [Nat.toString_eq_repr, Nat.repr, String.toList_ofList] at hc
    have hdigit := Nat.isDigit_of_mem_toDigits (by decide) (by decide) hc
    simp [isWordChar, Char.isAlphanum, hdigit]
  have hend : ∀ c ∈ "_t".toList, isWordChar c := List.all_eq_true.mp rfl
  rw [storage, hstorage, Option.getD_none, Enumeration.underlyingType, String.toList_append,
    String.toList_append]
  exact ((hsign _).append hwidth).append hend

/-! ### Functions -/

theorem mem_distinctFrom {seen : List Int} {ms : List Enumerator}
    (h : m ∈ Enumeration.distinctFrom seen ms) : m ∈ ms ∧ m.target = none := by
  induction ms generalizing seen with
  | nil => cases h
  | cons u ms ih =>
    rw [Enumeration.distinctFrom] at h
    split at h
    case isTrue hu =>
      rcases List.mem_cons.mp h with rfl | h
      · exact ⟨List.mem_cons_self, Option.isNone_iff_eq_none.mp hu.1⟩
      · exact ⟨List.mem_cons_of_mem u (ih h).1, (ih h).2⟩
    case isFalse => exact ⟨List.mem_cons_of_mem u (ih h).1, (ih h).2⟩

theorem isPlainQuoted_of_isWordChar {c : Char} (h : isWordChar c) : Piece.isPlainQuoted c := by
  have hcode := isWordChar_iff.mp h
  have hne : ∀ d, isWordChar d = false → c ≠ d := by
    rintro d hd rfl
    rw [h] at hd
    cases hd
  exact decide_eq_true ⟨by omega, hne _ rfl, hne _ rfl⟩

theorem skipped_valueNames_enumClass (h : Readable e) (hstorage : r.storage = none) :
    Skipped 0 0 (EnumClass.valueNames e r {}) := by
  have hselector : depthBehindGaps? 1 "\tswitch (static_cast<" [">(tp)) \x7b\n"] = some 2 := by
    decide +kernel
  refine skipped_nameFunction h.typeName (passes_of_eq_filled [storage e r] hselector rfl
    (by simp [isWord_storage e hstorage]) (by simp [filled, ← String.toList_inj])) ?_
  intro c hc
  obtain ⟨m, hm, rfl⟩ := List.mem_map.mp hc
  obtain ⟨hmem, htarget⟩ := mem_distinctFrom hm
  refine ⟨fun rest => ?_, fun c hc => isPlainQuoted_of_isWordChar (h.friendlyName m hmem c hc)⟩
  refine (Passes.of_divides (.blanks _ _) (by simp [Piece.lexemes]) 2).append
    ((h.literal m hmem htarget).passes ?_ 2)
  rintro d ⟨⟩
  rfl

theorem skipped_valueNames_plainEnum (h : Readable e) :
    Skipped 0 0 (PlainEnum.valueNames e {}) := by
  have hselector : ∀ rest, Passes ("\t" ++ "switch (" ++ "tp" ++ ") \x7b" ++ "\n") rest 1 2 :=
    .fixed (by decide +kernel)
  refine skipped_nameFunction (isWord_plainTypeName h) hselector ?_
  intro c hc
  obtain ⟨m, hm, rfl⟩ := List.mem_map.mp hc
  have hmem := (mem_distinctFrom hm).1
  refine ⟨fun rest => ?_, fun c hc => isPlainQuoted_of_isWordChar (h.friendlyName m hmem c hc)⟩
  refine .word (isWord_memberName (h.sourceName m hmem)) (fun henum => ?_) ?_ 2
  · obtain ⟨cs, hcs⟩ := exists_toList_memberName m.sourceName
    rw [show PlainEnum.memberName {} m.sourceName = "enum" from henum] at hcs
    cases hcs
  · rintro d ⟨⟩
    rfl

/-- The lines behind the declaration of a scoped enumeration. -/
theorem skipped_functions (h : Readable e) (hstorage : r.storage = none) :
    Skipped 0 0 ((if e.kind = .bitmask then "" :: EnumClass.operators e {} else [])
      ++ (if r.table then "" :: EnumClass.valueNames e r {} else [])
      ++ (if r.table ∧ e.kind = .bitmask then "" :: EnumClass.flagNames e {} else [])) := by
  have hpart : ∀ (c : Prop) [Decidable c] (ls : List String), Skipped 0 0 ls →
      Skipped 0 0 (if c then "" :: ls else []) := by
    intro c _ ls hls
    split
    · exact (skipped_blank 0).append hls
    · exact .nil 0
  exact ((hpart _ _ (skipped_operators h.flagsTypeName h.typeName)).append
    (hpart _ _ (skipped_valueNames_enumClass h hstorage))).append
    (hpart _ _ (skipped_flagNames h.flagsTypeName h.typeName))

/-! ### Whole blocks -/

/-- The text that stands for the value of a member in a style. -/
def shownValue (style : Style) (settings : Settings) (m : Enumerator) : String :=
  match m.target with
  | some target => shownName style settings target.sourceName target.friendlyName
  | none => m.literal

theorem readsBack_member (h : Readable e) (style : Style) (hm : m ∈ e.members) :
    ReadsBack (memberLine "\t" (shownName style {} m.sourceName m.friendlyName)
      (shownValue style {} m) m.comment) (shownMember style {} m) := by
  refine readsBack_memberLine
    (isWord_shownName style (h.sourceName m hm) (h.friendlyName m hm)) ?_ (h.comment m hm)
  unfold shownValue
  cases ht : m.target with
  | none => exact (h.literal m hm ht).readsAs
  | some target =>
    obtain ⟨hsource, hfriendly⟩ := h.target m hm target ht
    exact readsAs_word (isWord_shownName style hsource hfriendly)

theorem skipped_using (h : Readable e) (hstorage : r.storage = none) :
    Skipped 0 0 ["using " ++ e.flagsTypeName ++ " = " ++ storage e r ++ ";"] := by
  have husing : depthBehindGaps? 0 "using " [" = ", ";\n"] = some 0 := by decide +kernel
  exact .cons (passes_of_eq_filled [e.flagsTypeName, storage e r] husing rfl
    (by simp [h.flagsTypeName, isWord_storage e hstorage]) (by simp [filled, ← String.toList_inj]))
    (.nil 0)

/-- The lines of a scoped enumeration, taken apart. -/
theorem exists_lines_enumClass (h : Readable e) (hstorage : r.storage = none) :
    ∃ front l behind, Skipped 0 0 front ∧ Opens l e.typeName ∧ Skipped 0 0 behind ∧
      EnumClass.lines e r {} = front ++ l :: e.members.map (fun m =>
        memberLine "\t" (shownName .enumClass {} m.sourceName m.friendlyName)
          (shownValue .enumClass {} m) m.comment) ++ ["\x7d;"] ++ behind := by
  have hbehind := skipped_functions h hstorage
  cases hkind : e.kind with
  | plain =>
    refine ⟨_, _, _, .nil 0, opens_scoped h.typeName (isWord_storage e hstorage), hbehind, ?_⟩
    simp only [EnumClass.lines, EnumClass.declaration, hkind, List.append_assoc]
    rfl
  | bitmask =>
    refine ⟨_, _, _, skipped_using h hstorage, opens_scoped h.typeName h.flagsTypeName, hbehind, ?_⟩
    simp only [EnumClass.lines, EnumClass.declaration, hkind, List.append_assoc]
    rfl

theorem exists_lines_plainEnum (h : Readable e) (hstorage : r.storage = none) :
    ∃ l behind, Opens l (PlainEnum.typeName e {}) ∧ Skipped 0 0 behind ∧
      PlainEnum.lines e r {} = [] ++ l :: e.members.map (fun m =>
        memberLine "\t" (shownName .plainEnum {} m.sourceName m.friendlyName)
          (shownValue .plainEnum {} m) m.comment) ++ ["\x7d;"] ++ behind := by
  have hscope : ¬ (PlainEnum.typeName e {} = "class" ∨ PlainEnum.typeName e {} = "struct") := by
    obtain ⟨cs, hcs, -⟩ := exists_toList_plainTypeName e
    rintro (hname | hname) <;> rw [hname] at hcs <;> cases hcs
  have hbehind : Skipped 0 0 (if r.table then "" :: PlainEnum.valueNames e {} else []) := by
    split
    · exact (skipped_blank 0).append (skipped_valueNames_plainEnum h)
    · exact .nil 0
  have hopens := opens_plain (isWord_plainTypeName h) (isWord_storage e hstorage) hscope
  refine ⟨_, _, hopens, hbehind, ?_⟩
  simp only [PlainEnum.lines, PlainEnum.declaration, List.append_assoc]
  rfl

/-- **A block is read back as one group** of the name of the type with the members in order. -/
theorem parse_lines (h : Readable e) (hstorage : r.storage = none) :
    ∃ width, parse (textOf (e.lines r {})) = .ok
      { groups := [groupOf (shownTypeName r.style {} e) width
        (e.members.map (shownMember r.style {}))] } := by
  cases hstyle : r.style with
  | enumClass =>
    obtain ⟨front, l, behind, hfront, hopens, hbehind, hlines⟩ := exists_lines_enumClass h hstorage
    rw [Enumeration.lines, hstyle]
    dsimp only
    rw [hlines]
    exact parse_of_parts hfront hopens (fun m hm => readsBack_member h .enumClass hm) hbehind
  | plainEnum =>
    obtain ⟨l, behind, hopens, hbehind, hlines⟩ := exists_lines_plainEnum h hstorage
    rw [Enumeration.lines, hstyle]
    dsimp only
    rw [hlines]
    exact parse_of_parts (.nil 0) hopens (fun m hm => readsBack_member h .plainEnum hm) hbehind

end Rendering

end Enumerant
