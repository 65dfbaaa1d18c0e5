import Enumerant.Proofs.Registry.Values
import Enumerant.Proofs.Rendering.Blocks
import Enumerant.Proofs.Resolution.Enumerators

/-!
# Reading back generated code

What is generated for a group is a header itself, and it declares what the group resolves to: one
group with the resolved members in order (`parse_lines_resolve`). This holds for groups whose names
are words, whose literals are decimal numbers or single bits and whose comments keep to one line
(`IsPrintable`), provided that no implicit value leaves its 128 bits.
-/

namespace Enumerant

open Text Header

namespace Rendering

variable {g : Group} {e : Enumerator} {ms : List Member} {m : Member} {i : Nat} {v : Int}

/-! ### Numerals -/

theorem isAlphanum_toDigits (n : Nat) :
    ∀ c ∈ (String.ofList (Nat.toDigits 10 n)).toList, c.isAlphanum := by
  intro c hc
  rw [String.toList_ofList] at hc
  simp [Char.isAlphanum, Nat.isDigit_of_mem_toDigits (by decide) (by decide) hc]

theorem parse?_ofList_toDigits {n : Nat} (h : Fits n) :
    Literal.parse? (String.ofList (Nat.toDigits 10 n)).toList = some (n : Int) := by
  rw [String.toList_ofList, Literal.parse?_toDigits, checked, if_pos h]

/-- The decimal form of a value is a numeral, but for the least value: without its sign it is too
large. -/
theorem isNumeral_toString (hlower : -0x80000000000000000000000000000000 < v) (hfits : Fits v) :
    IsNumeral (toString v) v := by
  rw [Int.toString_eq_repr]
  cases v with
  | ofNat n => exact .plain (isAlphanum_toDigits n) (parse?_ofList_toDigits hfits)
  | negSucc n =>
    have hmagnitude : Fits ((n + 1 : Nat) : Int) := by omega
    exact .negative (isAlphanum_toDigits (n + 1)) (parse?_ofList_toDigits hmagnitude) hfits

/-- The text of a single bit is a numeral, and its value has no sign. -/
theorem isNumeral_bitValue {position width : Nat} {text : String} (h : position < 64)
    (hv : Registry.bitValue position width = .literal v text) : IsNumeral text v ∧ 0 ≤ v := by
  have hfits : Fits (Numeral.bit position) := Numeral.fits_bit (by omega)
  obtain ⟨more, suffix, hsuffix, hvalue⟩ := Literal.exists_bitValue_eq position width
  rw [Nat.mod_eq_of_lt (by omega), wrapped_eq_self_iff.mpr hfits] at hvalue
  obtain ⟨rfl, rfl⟩ := Initializer.literal.inj (hv.symm.trans hvalue)
  refine ⟨.plain ?_ ?_, Int.natCast_nonneg _⟩
  · rw [String.toList_ofList]
    refine List.forall_mem_cons.mpr ⟨rfl, List.forall_mem_cons.mpr ⟨rfl,
      List.forall_mem_append.mpr ⟨Numeral.isAlphanum_padded (by decide) (by decide), ?_⟩⟩⟩
    exact fun c hc => Literal.isAlphanum_of_isSuffix (hsuffix c hc)
  · rw [String.toList_ofList, Literal.parse?_hex hsuffix, checked, if_pos hfits]

/-! ### Groups -/

/-- A value as sources without surprises give it: a decimal number, a single bit, or none of its
own. -/
inductive IsPrintableValue : Initializer → Prop
  | implicit : IsPrintableValue .implicit
  | reference (name : String) : IsPrintableValue (.reference name)
  | unevaluated (text : String) : IsPrintableValue (.unevaluated text)
  | decimal {v : Int} (h : v.natAbs < 2 ^ 127) : IsPrintableValue (.decimal v)
  | bit {position : Nat} (h : position < 64) (width : Nat) :
      IsPrintableValue (Registry.bitValue position width)

/-- A group whose names are words, whose values are printable and whose comments keep to one
line. -/
structure IsPrintable (g : Group) : Prop where
  name : IsWord g.name.toList
  memberName : ∀ m ∈ g.members, IsWord m.name.toList
  value : ∀ m ∈ g.members, IsPrintableValue m.value
  comment : ∀ m ∈ g.members, ∀ text ∈ m.comment, '\n' ∉ text.toList

/-- No value that is counted on from the member before leaves its 128 bits. -/
def CountsWithin (ms : List Member) : Prop :=
  ∀ (i : Nat) (m : Member) (v : Int), ms[i + 1]? = some m → m.value = .implicit →
    Resolution.HasValue ms i v → Fits (v + 1)

open Resolution

theorem isNumeral_of_printable {text : String} (h : IsPrintableValue (.literal v text)) :
    IsNumeral text v ∧ -0x80000000000000000000000000000000 < v := by
  generalize hvalue : Initializer.literal v text = value at h
  cases h with
  | implicit => cases hvalue
  | reference => cases hvalue
  | unevaluated => cases hvalue
  | decimal h =>
    cases hvalue
    exact ⟨isNumeral_toString (by omega) ⟨by omega, by omega⟩, by omega⟩
  | bit h width =>
    obtain ⟨hnumeral, hsign⟩ := isNumeral_bitValue h hvalue.symm
    exact ⟨hnumeral, by omega⟩

/-- Counting starts from printable values and goes up. -/
theorem HasValue.lower (hvalues : ∀ m ∈ ms, IsPrintableValue m.value) (hcounts : CountsWithin ms)
    (h : HasValue ms i v) : -0x80000000000000000000000000000000 < v := by
  induction h with
  | literal hm hv => exact (isNumeral_of_printable (hv ▸ hvalues _ (List.mem_of_getElem? hm))).2
  | first => decide
  | successor hm hv h ih =>
    rw [wrapped_eq_self_iff.mpr (hcounts _ _ _ hm hv h)]
    omega
  | reference hm ht hv h ih => exact ih

/-- An enumerator that is no alias has a numeral as its text. -/
theorem isNumeral_literalOf (hvalues : ∀ m ∈ ms, IsPrintableValue m.value)
    (hcounts : CountsWithin ms) (hm : ms[i]? = some m) (hv : HasValue ms i v)
    (htarget : target? ms m = none) : IsNumeral (literalOf m v) v := by
  have hlower := HasValue.lower hvalues hcounts hv
  have hprintable := hvalues m (List.mem_of_getElem? hm)
  cases hv with
  | @literal i n v text hn hliteral =>
    obtain rfl := Option.some.inj (hm.symm.trans hn)
    rw [hliteral] at hprintable
    rw [literalOf, hliteral]
    exact (isNumeral_of_printable hprintable).1
  | first hn himplicit =>
    obtain rfl := Option.some.inj (hm.symm.trans hn)
    rw [literalOf, himplicit]
    exact isNumeral_toString hlower (by decide)
  | successor hn himplicit h =>
    obtain rfl := Option.some.inj (hm.symm.trans hn)
    rw [literalOf, himplicit]
    exact isNumeral_toString hlower (fits_wrapped _)
  | @reference i t n target v hn ht hreference =>
    obtain rfl := Option.some.inj (hm.symm.trans hn)
    rw [target?, hreference] at htarget
    have hne := List.find?_eq_none.mp htarget target (List.mem_of_getElem? ht)
    exact absurd (beq_self_eq_true target.name) hne

/-! ### What a group resolves to -/

theorem isWordChar_friendlyName {group member suffix : String}
    (h : ∀ c ∈ member.toList, isWordChar c) :
    ∀ c ∈ (friendlyName group member suffix).toList, isWordChar c := by
  rw [friendlyName, String.toList_ofList]
  split
  · exact Naming.forall_camel spellable_isWordChar h
  · exact Naming.forall_memberFriendly spellable_isWordChar h

/-- A type is named by a word unless its name begins with a digit. -/
theorem isWord_typeName (hname : IsWord g.name.toList)
    (htype : ∀ c ∈ (g.resolve {}).value.typeName.toList.head?, c.isDigit = false) :
    IsWord (g.resolve {}).value.typeName.toList := by
  have heq : (g.resolve {}).value.typeName.toList =
      Naming.typeName g.name.toList ({} : Settings).apiPrefix.toList := String.toList_ofList
  have hchars : ∀ c ∈ (g.resolve {}).value.typeName.toList, isWordChar c := by
    intro c hc
    rw [heq] at hc
    exact hname.2 c ((Naming.typeName_suffix _ _).mem hc)
  obtain ⟨c, cs, hcons, -⟩ := hname.exists_cons
  have hne :=
    Naming.typeName_ne_nil (hcons ▸ List.cons_ne_nil c cs) ({} : Settings).apiPrefix.toList
  rw [← heq] at hne
  obtain ⟨d, ds, hds⟩ := List.exists_cons_of_ne_nil hne
  rw [hds] at htype hchars ⊢
  refine ⟨⟨d, rfl, ?_⟩, hchars⟩
  have hchar := hchars d List.mem_cons_self
  have hdigit := htype d rfl
  simp only [isWordChar, isWordStart, Char.isAlphanum, hdigit, Bool.or_false] at hchar ⊢
  exact hchar

theorem isNumeral_of_mem_resolve (hvalues : ∀ m ∈ g.members, IsPrintableValue m.value)
    (hcounts : CountsWithin (g.participants {})) (he : e ∈ (g.resolve {}).value.members)
    (htarget : e.target = none) : IsNumeral e.literal e.value := by
  obtain ⟨i, m, d, hm, -, hv, -, -, -, heq⟩ := exists_hasValue_of_mem_enumerators
    (g.nodup_names_participants {}) (Group.mem_enumerators_of_mem_resolve he)
  rw [← heq] at htarget ⊢
  exact isNumeral_literalOf (fun m hm => hvalues m (Group.mem_of_mem_participants hm)) hcounts hm hv
    (Option.map_eq_none_iff.mp htarget)

/-- What a printable group resolves to can be read back. -/
theorem readable_resolve (hg : IsPrintable g)
    (htype : ∀ c ∈ (g.resolve {}).value.typeName.toList.head?, c.isDigit = false)
    (hcounts : CountsWithin (g.participants {})) : Readable (g.resolve {}).value := by
  have hmembers : ∀ e ∈ (g.resolve {}).value.members, ∃ (i : Nat) (m : Member) (v : Valued),
      (g.participants {})[i]? = some m ∧ HasValue (g.participants {}) i v.value ∧
      enumerator g {} (g.participants {}) (valueWidth (g.participants {})) m v = e := by
    intro e he
    obtain ⟨i, m, v, hm, hs, -, -, heq⟩ :=
      mem_enumerators.mp (mem_ordered.mp (Group.mem_ordered_of_mem_resolve he))
    have hvalue := (settled_eq_found_iff (g.nodup_names_participants {})).mp ⟨v.depth, hs⟩
    exact ⟨i, m, v, hm, hvalue, heq⟩
  have hname : ∀ m ∈ g.participants {}, ∀ c ∈ m.name.toList, isWordChar c := fun m hm =>
    (hg.memberName m (Group.mem_of_mem_participants hm)).2
  have hword := isWord_typeName hg.name htype
  refine ⟨hword, ?_, fun e he => ?_, fun e he => ?_, fun e he t ht => ?_, fun e he htarget => ?_,
    fun e he => ?_⟩
  · have hflags := Naming.isWord_flagsTypeName hword
    rwa [← String.toList_ofList (l := Naming.flagsTypeName _)] at hflags
  -- All that an enumerator shows comes from its member, or from that of its target.
  all_goals obtain ⟨i, m, v, hm, hv, rfl⟩ := hmembers e he
  all_goals have hmem := List.mem_of_getElem? hm
  · exact hname m hmem
  · exact isWordChar_friendlyName (hname m hmem)
  · obtain ⟨n, hn, rfl⟩ := Option.map_eq_some_iff.mp ht
    obtain ⟨⟨j, hj⟩, -⟩ := exists_of_target?_eq_some hn
    have hn' := hname n (List.mem_of_getElem? hj)
    exact ⟨hn', isWordChar_friendlyName hn'⟩
  · exact isNumeral_of_mem_resolve hg.value hcounts he htarget
  · exact hg.comment m (Group.mem_of_mem_participants hmem)

/-- **Generated code declares what its group resolves to.** Read as a header, the block for a group
gives one group, of the name of the type, whose members are the resolved ones in order: each with
its name in the style that is asked for, as a reference if it is an alias and else with its value
and the text of it, and with its comment unless that is blank. -/
theorem parse_lines_resolve (g : Group) (r : Request) (hg : IsPrintable g)
    (htype : ∀ c ∈ (g.resolve {}).value.typeName.toList.head?, c.isDigit = false)
    (hcounts : CountsWithin (g.participants {})) (hstorage : r.storage = none) :
    ∃ declared, parse (textOf ((g.resolve {}).value.lines r {})) = .ok { groups := [declared] } ∧
      declared.name = shownTypeName r.style {} (g.resolve {}).value ∧
      declared.members = (g.resolve {}).value.members.map (shownMember r.style {}) := by
  obtain ⟨width, hparse⟩ := parse_lines (readable_resolve hg htype hcounts) hstorage
  exact ⟨_, hparse, rfl, rfl⟩

theorem countsWithin_of_settled (hd : (ms.map Member.name).Nodup)
    (h : ∀ s ∈ settled ms, ∀ w ∈ s.valued?, Fits (w.value + 1)) : CountsWithin ms := by
  intro i m v hm himplicit hv
  obtain ⟨d, hs⟩ := (settled_eq_found_iff hd).mpr hv
  exact h _ (List.mem_of_getElem? hs) _ rfl

/-- Flags with a value of every kind. -/
def cullModes : Group where
  name := "VkCullModeFlagBits"
  kind := .bitmask
  members :=
    [⟨"VK_CULL_MODE_NONE", .decimal 0, some " nothing is left out "⟩,
      ⟨"VK_CULL_MODE_FRONT_BIT", Registry.bitValue 0 32, none⟩,
      ⟨"VK_CULL_MODE_BACK_BIT", .implicit, some " "⟩,
      ⟨"VK_CULL_MODE_REAR_BIT", .reference "VK_CULL_MODE_BACK_BIT", none⟩,
      ⟨"VK_CULL_MODE_SIZE", .unevaluated "sizeof(int)", none⟩]

/-- The block for the flags, with all its functions. -/
theorem parse_lines_cullModes :
    IsPrintable cullModes ∧
      (∀ c ∈ (cullModes.resolve {}).value.typeName.toList.head?, c.isDigit = false) ∧
      CountsWithin (cullModes.participants {}) ∧
      ∃ declared, parse (textOf ((cullModes.resolve {}).value.lines
          { group := "CullModeFlagBits", table := true } {})) = .ok { groups := [declared] } ∧
        declared.name = "CullModeFlagBits" ∧
        declared.members =
          [⟨"eNone", .literal 0 "0", some "nothing is left out"⟩,
            ⟨"eFront", .literal 1 "0x00000001", none⟩, ⟨"eBack", .literal 2 "2", none⟩,
            ⟨"eRear", .reference "eBack", none⟩] := by
  have hprintable : IsPrintable cullModes := by
    refine ⟨by decide +kernel, by decide +kernel, ?_, by decide +kernel⟩
    refine List.forall_mem_cons.mpr ⟨.decimal (by decide), List.forall_mem_cons.mpr
      ⟨.bit (by decide) 32, List.forall_mem_cons.mpr ⟨.implicit, List.forall_mem_cons.mpr
        ⟨.reference _, List.forall_mem_singleton.mpr (.unevaluated _)⟩⟩⟩⟩
  have hname : (cullModes.resolve {}).value.typeName = "CullModeFlagBits" := by decide +kernel
  have htype : ∀ c ∈ (cullModes.resolve {}).value.typeName.toList.head?, c.isDigit = false := by
    rw [hname]
    rintro c ⟨⟩
    rfl
  have hcounts : CountsWithin (cullModes.participants {}) :=
    countsWithin_of_settled (cullModes.nodup_names_participants {}) (by decide +kernel)
  have hsorted : cullModes.ordered {} = enumerators cullModes {} (cullModes.participants {}) :=
    List.mergeSort_of_pairwise (by decide +kernel)
  have hmembers : (cullModes.resolve {}).value.members.map (shownMember .enumClass {}) =
      [⟨"eNone", .literal 0 "0", some "nothing is left out"⟩,
        ⟨"eFront", .literal 1 "0x00000001", none⟩, ⟨"eBack", .literal 2 "2", none⟩,
        ⟨"eRear", .reference "eBack", none⟩] := by
    rw [Group.members_resolve, hsorted]
    decide +kernel
  refine ⟨hprintable, htype, hcounts, ?_⟩
  obtain ⟨declared, hparse, hdeclaredName, hdeclared⟩ := parse_lines_resolve cullModes
    { group := "CullModeFlagBits", table := true } hprintable htype hcounts rfl
  exact ⟨declared, hparse, hdeclaredName.trans hname, hdeclared.trans hmembers⟩

end Rendering

end Enumerant
