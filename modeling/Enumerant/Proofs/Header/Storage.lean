import Mathlib.Algebra.Order.GroupWithZero.Basic
import Mathlib.Algebra.Order.Ring.Int
import Mathlib.Tactic.ByContra
import Enumerant.Proofs.Header.Groups
import Enumerant.Proofs.Integer.Numeral
import Enumerant.Proofs.Resolution.Enumerators

/-!
# Integer types that hold the values of a header

Without a base type, an enumeration has 32 bits, or 64 if a literal among its members takes more,
and a plain one with a negative value is signed. The width is found before the values are, from the
literals in the first declaration of a name, so that it may be too small for a value that is counted
or that another declaration adds (`not_isValueOf_countsOn`). `forall_isValueOf_iff` says when the
integer type of a group holds the values of all its members.
-/

namespace Enumerant.Header

variable {text : String} {s : Schema} {g : Group} {e : Enumerator} {items : List Item}

/-- The values of an integer type, by its name. -/
inductive IsValueOf : String → Int → Prop
  | unsigned (width : Nat) {v : Int} (h₀ : 0 ≤ v) (h₁ : v < 2 ^ width) :
      IsValueOf ("uint" ++ toString width ++ "_t") v
  | signed (width : Nat) {v : Int} (h₀ : -2 ^ (width - 1) ≤ v) (h₁ : v < 2 ^ (width - 1)) :
      IsValueOf ("int" ++ toString width ++ "_t") v

/-- An enumeration with a body gives its base type. -/
def GivesBaseType (text : String) : Prop :=
  ∃ t behind, t :: behind <:+ tokens text.toList ∧ t.lexeme = .word "enum" ∧
    nextIs .colon (optionalWord (afterScope behind)).2 ∧
    nextIs .openBrace (declaredWidth (optionalWord (afterScope behind)).2).2

/-- A header without a colon gives no base type. -/
theorem not_givesBaseType (h : ∀ t ∈ tokens text.toList, t.lexeme ≠ .mark .colon) :
    ¬ GivesBaseType text := by
  rintro ⟨t, behind, hsuf, -, hcolon, -⟩
  unfold nextIs at hcolon
  split at hcolon
  case h_1 u rest heq =>
    refine h u ?_ (by simpa using hcolon)
    have hrest : u :: rest <:+ tokens text.toList :=
      (next?_suffix heq).trans ((optionalWord_suffix _).trans
        ((afterScope_suffix behind).trans ((List.suffix_cons t behind).trans hsuf)))
    exact hrest.subset List.mem_cons_self
  case h_2 => cases hcolon

/-! ### Widths -/

/-- The width of an enumeration without a base type. -/
theorem width_of_mem_items (hbase : ¬ GivesBaseType text)
    (hg : Item.group g ∈ (read text).items) :
    g.width = if g.members.any needs64 then 64 else 32 := by
  obtain ⟨t, behind, rest, hkey, hword, he⟩ := declares_of_mem_items hg
  obtain ⟨u, body, after, name, ms, hnext, hu, -, rfl⟩ := enumeration_group he
  have hcolon : nextIs .colon (optionalWord (afterScope behind)).2 = false := by
    by_contra h
    exact hbase ⟨t, behind, hkey, hword, by simpa using h, by simp [nextIs, hnext, hu]⟩
  simp [groupOf, declaredWidth_of_not_colon hcolon]

/-- The width of a group is that of the enumeration which first declares its name. -/
theorem width_of_mem_groups (hparse : parse text = .ok s) (hbase : ¬ GivesBaseType text)
    (hg : g ∈ s.groups) :
    ∃ first later, declarations (read text).items g.name = first :: later ∧
      g.width = if first.members.any needs64 then 64 else 32 := by
  rw [eq_schemaOf_of_parse hparse] at hg
  obtain ⟨first, later, hdecl, heq⟩ := (collects_schemaOf _).declared g hg
  have hfirst : first ∈ declarations (read text).items g.name := hdecl ▸ List.mem_cons_self
  refine ⟨first, later, hdecl, ?_⟩
  rw [← width_of_mem_items hbase (mem_declarations.mp hfirst).1, heq]

/-- The bits that some members ask for by their literals: 64 if one of these is no value of 32 bits,
be it with a sign or without. -/
inductive LiteralBits (ms : List Member) : Nat → Prop
  | narrow (h : ∀ m ∈ ms, ∀ v source, m.value = .literal v source → -2 ^ 31 ≤ v ∧ v < 2 ^ 32) :
      LiteralBits ms 32
  | wide {m : Member} {v : Int} {source : String} (hm : m ∈ ms)
      (hvalue : m.value = .literal v source) (h : v < -2 ^ 31 ∨ 2 ^ 32 ≤ v) : LiteralBits ms 64

theorem needs64_iff {m : Member} :
    needs64 m ↔ ∃ v source, m.value = .literal v source ∧ (v < -2 ^ 31 ∨ 2 ^ 32 ≤ v) := by
  unfold needs64
  cases m.value with
  | literal value source =>
    simp only [ge_iff_le, Bool.or_eq_true, decide_eq_true_eq, Initializer.literal.injEq]
    constructor
    · intro h
      exact ⟨value, source, ⟨rfl, rfl⟩, by omega⟩
    · rintro ⟨v, -, ⟨rfl, -⟩, h⟩
      omega
  | _ => simp

theorem literalBits_width (ms : List Member) :
    LiteralBits ms (if ms.any needs64 then 64 else 32) := by
  split
  case isTrue h =>
    obtain ⟨m, hm, hwide⟩ := List.any_eq_true.mp h
    obtain ⟨v, source, hvalue, hv⟩ := needs64_iff.mp hwide
    exact .wide hm hvalue hv
  case isFalse h =>
    refine .narrow fun m hm v source hvalue => ?_
    by_contra hv
    exact h (List.any_eq_true.mpr ⟨m, hm, needs64_iff.mpr ⟨v, source, hvalue, by omega⟩⟩)

/-! ### Values -/

theorem typeName_inj {front : String} {m n : Nat}
    (h : front ++ toString m ++ "_t" = front ++ toString n ++ "_t") : m = n := by
  have hlist := congrArg String.toList h
  simp only [String.toList_append, List.append_cancel_left_eq, List.append_assoc,
    List.append_cancel_right_eq, String.toList_inj] at hlist
  exact Numeral.toDigits_inj (by decide) (by decide) (String.ofList_injective hlist)

theorem uint_ne_int (m n : Nat) : "uint" ++ toString m ++ "_t" ≠ "int" ++ toString n ++ "_t" := by
  intro h
  have hhead := congrArg (fun s : String => s.toList.head?) h
  simp at hhead

theorem isValueOf_uint_iff {width : Nat} {v : Int} :
    IsValueOf ("uint" ++ toString width ++ "_t") v ↔ 0 ≤ v ∧ v < 2 ^ width := by
  refine ⟨fun h => ?_, fun h => .unsigned width h.1 h.2⟩
  generalize hname : "uint" ++ toString width ++ "_t" = name at h
  cases h with
  | unsigned w h₀ h₁ => exact typeName_inj hname ▸ ⟨h₀, h₁⟩
  | signed w h₀ h₁ => exact absurd hname (uint_ne_int _ _)

theorem isValueOf_int_iff {width : Nat} {v : Int} :
    IsValueOf ("int" ++ toString width ++ "_t") v ↔
      -2 ^ (width - 1) ≤ v ∧ v < 2 ^ (width - 1) := by
  refine ⟨fun h => ?_, fun h => .signed width h.1 h.2⟩
  generalize hname : "int" ++ toString width ++ "_t" = name at h
  cases h with
  | unsigned w h₀ h₁ => exact absurd hname.symm (uint_ne_int _ _)
  | signed w h₀ h₁ => exact typeName_inj hname ▸ ⟨h₀, h₁⟩

/-- A value of the type of an enumeration is one of its width, with a sign or without. -/
theorem isValueOf_underlyingType_iff {enumeration : Enumeration} {v : Int} :
    IsValueOf enumeration.underlyingType v ↔
      if enumeration.signed then
        -2 ^ (enumeration.width - 1) ≤ v ∧ v < 2 ^ (enumeration.width - 1)
      else 0 ≤ v ∧ v < 2 ^ enumeration.width := by
  rw [Enumeration.underlyingType]
  split
  · exact isValueOf_int_iff
  · exact isValueOf_uint_iff

/-- An enumeration is signed exactly if it is a plain one with a negative value. -/
theorem signed_resolve_iff {settings : Settings} :
    (g.resolve settings).value.signed ↔
      g.kind = .plain ∧ ∃ e ∈ (g.resolve settings).value.members, e.value < 0 := by
  have hsigned : (g.resolve settings).value.signed =
      decide (g.kind = .plain ∧ (g.resolve settings).value.members.any (·.value < 0)) := rfl
  rw [hsigned, decide_eq_true_eq, List.any_eq_true]
  simp only [decide_eq_true_eq]

/-- **When the integer type of a group holds the values of its members.** Its width is what the
literals of the enumeration ask for which declares the name first, and of the two types of that
width, one with a sign and one without, it is one that holds all values if there is one; flags
have no sign. -/
theorem forall_isValueOf_iff (hparse : parse text = .ok s) (hbase : ¬ GivesBaseType text)
    (hg : g ∈ s.groups) :
    ∃ first later bits, declarations (read text).items g.name = first :: later ∧
      LiteralBits first.members bits ∧
      ((∀ e ∈ (g.resolve {}).value.members,
          IsValueOf (g.resolve {}).value.underlyingType e.value) ↔
        (∀ e ∈ (g.resolve {}).value.members, 0 ≤ e.value ∧ e.value < 2 ^ bits) ∨
          g.kind = .plain ∧ ∀ e ∈ (g.resolve {}).value.members,
            -2 ^ (bits - 1) ≤ e.value ∧ e.value < 2 ^ (bits - 1)) := by
  obtain ⟨first, later, hdecl, hwidth⟩ := width_of_mem_groups hparse hbase hg
  refine ⟨first, later, _, hdecl, literalBits_width first.members, ?_⟩
  rw [← hwidth]
  have hsame : (g.resolve {}).value.width = g.width := rfl
  have hpow : (2 : Int) ^ (g.width - 1) ≤ 2 ^ g.width :=
    pow_le_pow_right₀ (by decide) (Nat.sub_le _ _)
  simp only [isValueOf_underlyingType_iff, hsame]
  -- A signed type is chosen where a value is negative, so that only one of the ranges can do.
  by_cases hsign : (g.resolve {}).value.signed
  · obtain ⟨hplain, e, he, hneg⟩ := signed_resolve_iff.mp hsign
    simp only [hsign, if_true]
    refine ⟨fun h => .inr ⟨hplain, h⟩, ?_⟩
    rintro (h | ⟨-, h⟩)
    · exact absurd (h e he).1 (by omega)
    · exact h
  · simp only [hsign, if_false, Bool.false_eq_true]
    refine ⟨.inl, ?_⟩
    rintro (h | ⟨hplain, h⟩)
    · exact h
    -- Without negative values, the range of the signed type lies within that of the unsigned one.
    · intro e he
      have hnonneg : 0 ≤ e.value := by
        by_contra hneg
        exact hsign (signed_resolve_iff.mpr ⟨hplain, e, he, by omega⟩)
      exact ⟨hnonneg, (h e he).2.trans_le hpow⟩

/-- An enumeration whose only value takes more than 32 bits, and a sign. -/
def wideValue : String :=
  "enum E \x7b A = -5000000000 \x7d;"

/-- The group of `wideValue`. -/
def wideGroup : Group :=
  ⟨"E", .plain, 64, [⟨"A", .literal (-5000000000) "-5000000000", none⟩]⟩

theorem read_wideValue : read wideValue = { items := [.group wideGroup] } := by
  decide +kernel

/-- The integer type of `wideValue` is one of 64 bits with a sign, which holds its value. -/
theorem isValueOf_wideValue :
    parse wideValue = .ok { groups := [wideGroup] } ∧ ¬ GivesBaseType wideValue ∧
      (wideGroup.resolve {}).value.members.map Enumerator.value = [-5000000000] ∧
      ∀ e ∈ (wideGroup.resolve {}).value.members,
        IsValueOf (wideGroup.resolve {}).value.underlyingType e.value := by
  have hparse : parse wideValue = .ok { groups := [wideGroup] } := by
    rw [parse, read_wideValue]
    rfl
  have hbase : ¬ GivesBaseType wideValue := not_givesBaseType (by decide +kernel)
  have hes : (wideGroup.resolve {}).value.members =
      [⟨"A", "A", -5000000000, "-5000000000", none, none, "00ed5fa0e00"⟩] := by
    rw [Group.members_resolve, Group.ordered]
    decide +kernel
  obtain ⟨first, later, bits, hdecl, hbits, hiff⟩ :=
    forall_isValueOf_iff hparse hbase (List.mem_singleton_self wideGroup)
  have hfirst : [wideGroup] = first :: later := by
    rw [← hdecl, read_wideValue]
    rfl
  cases hfirst
  refine ⟨hparse, hbase, by rw [hes]; rfl, hiff.mpr (.inr ⟨rfl, ?_⟩)⟩
  rw [hes]
  cases hbits with
  | narrow h => exact absurd (h _ List.mem_cons_self _ _ rfl).1 (by decide)
  | wide => simp

/-- An enumeration that counts on from the greatest value of 32 bits. -/
def countsOn : String :=
  "enum E \x7b A = 0xFFFFFFFF, B \x7d;"

/-- The group of `countsOn`. -/
def countsOnGroup : Group :=
  ⟨"E", .plain, 32, [⟨"A", .literal 4294967295 "0xFFFFFFFF", none⟩, ⟨"B", .implicit, none⟩]⟩

/-- No literal of `countsOn` takes more than 32 bits, but the value that is counted does. -/
theorem not_isValueOf_countsOn :
    ∃ s, parse countsOn = .ok s ∧ ¬ GivesBaseType countsOn ∧
      ∃ g ∈ s.groups, ∃ e ∈ (g.resolve {}).value.members,
        ¬ IsValueOf (g.resolve {}).value.underlyingType e.value := by
  have hread : read countsOn = { items := [.group countsOnGroup] } := by
    decide +kernel
  have hparse : parse countsOn = .ok { groups := [countsOnGroup] } := by
    rw [parse, hread]
    rfl
  have hbase : ¬ GivesBaseType countsOn := not_givesBaseType (by decide +kernel)
  have hes : (countsOnGroup.resolve {}).value.members =
      [⟨"A", "A", 4294967295, "0xFFFFFFFF", none, none, "010ffffffff"⟩,
        ⟨"B", "B", 4294967296, "4294967296", none, none, "01100000000"⟩] := by
    rw [Group.members_resolve, Group.ordered, List.mergeSort_of_pairwise (by decide +kernel)]
    decide +kernel
  refine ⟨_, hparse, hbase, _, List.mem_singleton_self _, _,
    hes ▸ List.mem_cons_of_mem _ (List.mem_singleton_self _), ?_⟩
  have htype : (countsOnGroup.resolve {}).value.signed = false := by
    have hsigned : (countsOnGroup.resolve {}).value.signed = decide (countsOnGroup.kind = .plain ∧
        (countsOnGroup.resolve {}).value.members.any (·.value < 0)) := rfl
    rw [hsigned, hes]
    rfl
  rw [isValueOf_underlyingType_iff, htype]
  exact fun h => absurd h.2 (by decide)

end Enumerant.Header
