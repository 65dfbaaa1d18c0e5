import Enumerant.Proofs.Rendering.Members

/-!
# Generated functions

The functions behind a declaration declare nothing themselves: reading passes over their lines, with
all braces closed in the end (`Skipped`). Each line is a text with gaps for the names of types; only
the cases of a name function hold other texts, which are the label and the quoted name.
-/

namespace Enumerant

open Text Header

namespace Rendering

variable {d d₁ d₂ : Nat} {l : String} {ls ls' : List String} {e : Enumeration}
  {typeName selector op leftType operand : String}

/-! ### Lines -/

/-- Reading passes over some lines, whatever follows, from one number of open braces to another. -/
def Skipped (d d' : Nat) (ls : List String) : Prop :=
  ∀ rest, Passes (textOf ls) rest d d'

theorem textOf_append (ls ls' : List String) : textOf (ls ++ ls') = textOf ls ++ textOf ls' := by
  induction ls with
  | nil => simp [textOf]
  | cons l ls ih => rw [List.cons_append, textOf_cons, textOf_cons, ih, ← String.append_assoc]

theorem Skipped.nil (d : Nat) : Skipped d d [] :=
  fun rest => .nil rest d

theorem Skipped.append (h : Skipped d d₁ ls) (h' : Skipped d₁ d₂ ls') :
    Skipped d d₂ (ls ++ ls') := by
  intro rest
  rw [textOf_append]
  exact (h _).append (h' rest)

theorem Skipped.cons (h : ∀ rest, Passes (l ++ "\n") rest d d₁) (h' : Skipped d₁ d₂ ls) :
    Skipped d d₂ (l :: ls) := by
  intro rest
  rw [textOf_cons]
  exact (h _).append (h' rest)

/-- The number of open braces behind lines without gaps. -/
def depthBehindLines? (depth : Nat) : List String → Option Nat
  | [] => some depth
  | l :: ls => (depthBehindGaps? depth (l ++ "\n") []).bind (depthBehindLines? · ls)

/-- Lines without gaps, passed over as evaluation finds. -/
theorem Skipped.fixed (h : depthBehindLines? d ls = some d₁) : Skipped d d₁ ls := by
  induction ls generalizing d with
  | nil =>
    cases h
    exact .nil _
  | cons l ls ih =>
    obtain ⟨d', hd', h⟩ := Option.bind_eq_some_iff.mp h
    exact .cons (.fixed hd') (ih h)

theorem skipped_blank (d : Nat) : Skipped d d [""] :=
  .cons (fun rest => .of_divides (divides_newline rest) rfl d) (.nil d)

/-- A line with words in its gaps. -/
theorem passes_of_eq_filled {front : String} {more : List String} (words : List String)
    (h : depthBehindGaps? d front more = some d₁) (hlength : words.length = more.length)
    (hwords : ∀ w ∈ words, IsWord w.toList) (hline : l ++ "\n" = filled front words more)
    (rest : List Char) : Passes (l ++ "\n") rest d d₁ := by
  rw [hline]
  exact .filled words hlength hwords h rest

/-! ### Operators -/

theorem skipped_operator (hop : op = "|" ∨ op = "&") (hflags : IsWord e.flagsTypeName.toList)
    (htype : IsWord e.typeName.toList) (hleft : IsWord leftType.toList)
    (hoperand : operand = "static_cast<" ++ e.flagsTypeName ++ ">(lhs)" ∨ operand = "lhs") :
    Skipped 0 0 (EnumClass.operator e {} op leftType operand) := by
  have hhead : depthBehindGaps? 0 "constexpr "
      [" operator" ++ op ++ "(", " const& lhs, ", " const& rhs) noexcept \x7b\n"] = some 1 := by
    rcases hop with rfl | rfl <;> decide +kernel
  have hcast : depthBehindGaps? 1 "\treturn static_cast<const "
      [">(static_cast<", ">(lhs) " ++ op ++ " static_cast<", ">(rhs));\n"] = some 1 := by
    rcases hop with rfl | rfl <;> decide +kernel
  have hplain : depthBehindGaps? 1 "\treturn static_cast<const "
      [">(lhs " ++ op ++ " static_cast<", ">(rhs));\n"] = some 1 := by
    rcases hop with rfl | rfl <;> decide +kernel
  refine .cons (passes_of_eq_filled [e.flagsTypeName, leftType, e.typeName] hhead rfl
    (by simp [hflags, hleft, htype]) (by simp [filled, ← String.toList_inj])) ?_
  have hclose : Skipped 1 0 ["\x7d"] := .fixed (by decide +kernel)
  refine .cons ?_ hclose
  rcases hoperand with rfl | rfl
  · exact passes_of_eq_filled [e.flagsTypeName, e.flagsTypeName, e.flagsTypeName] hcast rfl
      (by simp [hflags]) (by simp [filled, ← String.toList_inj])
  · exact passes_of_eq_filled [e.flagsTypeName, e.flagsTypeName] hplain rfl
      (by simp [hflags]) (by simp [filled, ← String.toList_inj])

theorem skipped_operators (hflags : IsWord e.flagsTypeName.toList)
    (htype : IsWord e.typeName.toList) : Skipped 0 0 (EnumClass.operators e {}) := by
  exact ((((skipped_operator (.inl rfl) hflags htype htype (.inl rfl)).append
    (skipped_blank 0)).append (skipped_operator (.inl rfl) hflags htype hflags (.inr rfl))).append
    (skipped_blank 0)).append (skipped_operator (.inr rfl) hflags htype htype (.inl rfl))

/-! ### Names of values -/

/-- The line of a case passes over its label and over its quoted name. -/
theorem passes_case {label name : String} (hlabel : ∀ rest, Passes label (':' :: rest) 2 2)
    (hname : ∀ c ∈ name.toList, Piece.isPlainQuoted c) (rest : List Char) :
    Passes ("\t" ++ "\t" ++ "case " ++ label ++ ": return \"" ++ name ++ "\";" ++ "\n") rest
      2 2 := by
  have hline : "\t" ++ "\t" ++ "case " ++ label ++ ": return \"" ++ name ++ "\";" ++ "\n" =
      "\t\tcase " ++ (label ++ (": return " ++ (("\"" ++ name ++ "\"") ++ ";\n"))) := by
    simp [← String.toList_inj]
  have hcase : ∀ rest, Passes "\t\tcase " rest 2 2 := .fixed (by decide +kernel)
  have hreturn : ∀ rest, Passes ": return " rest 2 2 := .fixed (by decide +kernel)
  have hend : ∀ rest, Passes ";\n" rest 2 2 := .fixed (by decide +kernel)
  have hquoted : ∀ rest, Passes ("\"" ++ name ++ "\"") rest 2 2 := by
    intro rest
    obtain ⟨text, htext⟩ := Piece.Divides.quoted hname rest
    exact .of_divides htext rfl 2
  rw [hline]
  refine (hcase _).append (.append ?_ ((hreturn _).append ((hquoted _).append (hend _))))
  rw [String.toList_append]
  exact hlabel _

theorem skipped_nameFunction {cases : List (String × String)} (htype : IsWord typeName.toList)
    (hselector : ∀ rest, Passes ("\t" ++ "switch (" ++ selector ++ ") \x7b" ++ "\n") rest 1 2)
    (hcases : ∀ c ∈ cases, (∀ rest, Passes c.1 (':' :: rest) 2 2) ∧
      ∀ ch ∈ c.2.toList, Piece.isPlainQuoted ch) :
    Skipped 0 0 (nameFunction {} typeName selector cases) := by
  have hhead : depthBehindGaps? 0 "static constexpr char const* to_str(const " ["& tp) \x7b\n"] =
      some 1 := (depthBehindGaps?_ofList 0 _ [_]).trans (by decide +kernel)
  have hoff : Skipped 2 2 ["// clang-format off"] := .fixed (by decide +kernel)
  have hlines : Skipped 2 2 (cases.map fun c =>
      "\t" ++ "\t" ++ "case " ++ c.1 ++ ": return \"" ++ c.2 ++ "\";") := by
    induction cases with
    | nil => exact .nil 2
    | cons c cases ih =>
      obtain ⟨⟨hlabel, hname⟩, hcases⟩ := List.forall_mem_cons.mp hcases
      exact .cons (passes_case hlabel hname) (ih hcases)
  refine .append (.append (.cons (passes_of_eq_filled [typeName] hhead rfl
    (by simp [htype]) (by simp [filled, ← String.toList_inj])) (.cons hselector hoff)) hlines)
    (.fixed (by decide +kernel))

/-- Of the names of flags, only the head and one line far inside have gaps. -/
theorem skipped_flagNames (hflags : IsWord e.flagsTypeName.toList)
    (htype : IsWord e.typeName.toList) : Skipped 0 0 (EnumClass.flagNames e {}) := by
  have hhead : depthBehindGaps? 0 "static std::string " ["(const ", "& tp) \x7b\n"] = some 1 :=
    (depthBehindGaps?_ofList 0 _ [_, _]).trans (by decide +kernel)
  have hflag : depthBehindGaps? 3 "\t\t\tresult.append(to_str(" ["(1ULL << bit_pos)));\n"] =
      some 3 :=
    (depthBehindGaps?_ofList 3 _ [_]).trans (by decide +kernel)
  have hfront : Skipped 1 3 (indented "\t"
      (["uint64_t flags = tp;", "std::string result;", "int bit_pos = 0;", "while (flags) \x7b"]
        ++ indented "\t" (["if (flags & 1) \x7b"]
          ++ indented "\t" ["if (false == result.empty()) \x7b",
            "\t" ++ "result.append(\" | \");", "\x7d"]))) := .fixed (by decide +kernel)
  have hback : Skipped 3 0 (indented "\t" (indented "\t" ["\x7d", "flags >>= 1;", "bit_pos++;"]
      ++ ["\x7d", "return result;"]) ++ ["\x7d"]) := .fixed (by decide +kernel)
  have hname :
      IsWord ("to_string_" ++ String.ofList (Naming.snake e.flagsTypeName.toList)).toList := by
    have hprefix : IsWord "to_string_".toList := ⟨⟨'t', rfl, rfl⟩, List.all_eq_true.mp rfl⟩
    rw [String.toList_append]
    refine hprefix.append fun c hc => Naming.forall_snake spellable_isWordChar hflags.2 c ?_
    rwa [String.toList_ofList] at hc
  have hhead' := passes_of_eq_filled
    ["to_string_" ++ String.ofList (Naming.snake e.flagsTypeName.toList), e.flagsTypeName] hhead
    (l := "static std::string to_string_" ++ String.ofList (Naming.snake e.flagsTypeName.toList)
      ++ "(const " ++ e.flagsTypeName ++ "& tp) \x7b") rfl
    (List.forall_mem_cons.mpr ⟨hname, by simp [hflags]⟩) (by simp [filled, ← String.toList_inj])
  have hflag' := passes_of_eq_filled [e.typeName] hflag
    (l := "\t" ++ ("\t" ++ ("\t" ++ ("result.append(to_str(" ++ e.typeName
      ++ "(1ULL << bit_pos)));")))) rfl (by simp [htype]) (by simp [filled, ← String.toList_inj])
  exact Skipped.cons hhead' (hfront.append (.cons hflag' hback))

end Rendering

end Enumerant
