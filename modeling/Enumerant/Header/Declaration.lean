import Enumerant.Header.Initializer
import Enumerant.Naming.Member

/-!
# Enumerations in headers

An `enum` with a body declares a group: its tag or the identifier behind the body names it, and its
enumerators are the members. This module reads one enumeration from the tokens after its keyword.
-/

namespace Enumerant.Header

/-! ### Enumerators -/

/-- The text of the comment right at the front of some tokens, if it stands on the given line, and
what follows it. -/
def trailingRemark (line : Nat) : List Token → Option String × List Token
  | [] => (none, [])
  | t :: ts =>
    match t.lexeme with
    | .remark text => if t.line = line then (some text, ts) else (none, t :: ts)
    | _ => (none, t :: ts)

/-- The value written after the name of an enumerator, and what follows it. -/
def memberValue (last : Nat) (ts : List Token) :
    Except Fault (Initializer × List Token) :=
  match next? ts with
  | some (⟨.mark .assign, _, _, _, _⟩, rest) => initializer last rest
  | _ => .ok (.implicit, ts)

/-- What follows the comma after an enumerator; before a closing brace there need not be one. -/
def afterSeparator (last : Nat) (name : String) (ts : List Token) : Except Fault (List Token) :=
  match next? ts with
  | some (⟨.mark .comma, _, _, _, _⟩, rest) => .ok rest
  | some (⟨.mark .closeBrace, _, _, _, _⟩, _) => .ok ts
  | _ => .error ⟨lineOf last ts, .missingSeparator name⟩

/-- The enumerator of the given name and line, and what follows it. Its comment stands on its line,
before the comma or after it. -/
def member (last : Nat) (name : String) (line : Nat) (ts : List Token) :
    Except Fault (Member × List Token) :=
  match memberValue last ts with
  | .error fault => .error fault
  | .ok (value, ts) =>
    let before := trailingRemark line ts
    match afterSeparator last name before.2 with
    | .error fault => .error fault
    | .ok ts =>
      match before.1 with
      | some text => .ok (⟨name, value, some text⟩, ts)
      | none =>
        let after := trailingRemark line ts
        .ok (⟨name, value, after.1⟩, after.2)

theorem length_trailingRemark_le (line : Nat) (ts : List Token) :
    (trailingRemark line ts).2.length ≤ ts.length := by
  cases ts with
  | nil => exact Nat.le_refl 0
  | cons t ts =>
    simp only [trailingRemark]
    split
    · split
      · exact Nat.le_succ _
      · exact Nat.le_refl _
    · exact Nat.le_refl _

theorem length_le_of_memberValue {last : Nat} {ts rest : List Token}
    {value : Initializer} (h : memberValue last ts = .ok (value, rest)) :
    rest.length ≤ ts.length := by
  unfold memberValue at h
  split at h
  · rename_i heq
    exact Nat.le_trans (length_le_of_initializer h) (Nat.le_of_lt (length_lt_of_next? heq))
  · cases h
    exact Nat.le_refl _

theorem length_le_of_afterSeparator {last : Nat} {name : String} {ts rest : List Token}
    (h : afterSeparator last name ts = .ok rest) : rest.length ≤ ts.length := by
  unfold afterSeparator at h
  split at h
  · rename_i heq
    cases h
    exact Nat.le_of_lt (length_lt_of_next? heq)
  · cases h
    exact Nat.le_refl _
  · exact nomatch h

theorem length_le_of_member {last : Nat} {name : String} {line : Nat}
    {ts rest : List Token} {m : Member} (h : member last name line ts = .ok (m, rest)) :
    rest.length ≤ ts.length := by
  unfold member at h
  split at h
  · exact nomatch h
  · rename_i value after hvalue
    have h₁ := length_le_of_memberValue hvalue
    have h₂ := length_trailingRemark_le line after
    dsimp only at h
    split at h
    · exact nomatch h
    · rename_i sep hsep
      have h₃ := length_le_of_afterSeparator hsep
      split at h
      · cases h
        omega
      · have h₄ := length_trailingRemark_le line sep
        cases h
        omega

/-- The enumerators up to the closing brace, and what follows it. -/
def members (last : Nat) (ts : List Token) :
    Except Fault (List Member × List Token) :=
  match _h : next? ts with
  | none => .error ⟨last, .unterminatedBody⟩
  | some (t, rest) =>
    match t.lexeme with
    | .mark .closeBrace => .ok ([], rest)
    | .mark .comma => members last rest
    | .word name =>
      match _hm : member last name t.line rest with
      | .error fault => .error fault
      | .ok (m, rest) =>
        match members last rest with
        | .ok (ms, rest) => .ok (m :: ms, rest)
        | .error fault => .error fault
    | lexeme => .error ⟨lineOf last rest, .unexpectedInBody lexeme⟩
termination_by ts.length
decreasing_by
  · exact length_lt_of_next? _h
  · exact Nat.lt_of_le_of_lt (length_le_of_member _hm) (length_lt_of_next? _h)

theorem length_le_of_members {last : Nat} {ts rest : List Token}
    {ms : List Member} (h : members last ts = .ok (ms, rest)) : rest.length ≤ ts.length := by
  fun_induction members last ts generalizing ms rest with
  | case1 => exact nomatch h
  | case2 _ _ _ hnext =>
    cases h
    exact Nat.le_of_lt (length_lt_of_next? hnext)
  | case3 _ _ _ hnext _ ih => exact Nat.le_trans (ih h) (Nat.le_of_lt (length_lt_of_next? hnext))
  | case4 => exact nomatch h
  | case5 _ _ _ hnext _ _ _ _ hm _ _ hms ih =>
    cases h
    have h₁ := length_lt_of_next? hnext
    have h₂ := length_le_of_member hm
    have h₃ := ih hms
    omega
  | case6 => exact nomatch h
  | case7 => exact nomatch h

/-! ### Enumerations -/

/-- The width in bits of a base type, if its name is known. -/
def widthOfType? (name : String) : Option Nat :=
  if name ∈ ["uint8_t", "int8_t", "char"] then some 8
  else if name ∈ ["uint16_t", "int16_t", "short"] then some 16
  else if name ∈ ["uint32_t", "int32_t", "int"] then some 32
  else if name ∈ ["uint64_t", "int64_t"] then some 64
  else none

/-- The width that the words of a base type give, and what follows them. Of several known words the
last counts. -/
def baseWidth (width : Nat) (ts : List Token) : Nat × List Token :=
  match _h : next? ts with
  | some (⟨.word name, _, _, _, _⟩, rest) => baseWidth ((widthOfType? name).getD width) rest
  | some (⟨.mark .colon, _, _, _, _⟩, rest) => baseWidth width rest
  | _ => (width, ts)
termination_by ts.length
decreasing_by all_goals exact length_lt_of_next? _h

/-- The width that the colon after the name of an enumeration gives, and what follows its type. -/
def declaredWidth (ts : List Token) : Nat × List Token :=
  match next? ts with
  | some (⟨.mark .colon, _, _, _, _⟩, rest) => baseWidth 32 rest
  | _ => (32, ts)

/-- The tokens after the `class` or `struct` of a scoped enumeration. -/
def afterScope (ts : List Token) : List Token :=
  match word? ts with
  | some (name, rest) => if name = "class" ∨ name = "struct" then rest else ts
  | none => ts

/-- The identifier in front of some tokens, if there is one, and the tokens after it. -/
def optionalWord (ts : List Token) : Option String × List Token :=
  match word? ts with
  | some (name, rest) => (some name, rest)
  | none => (none, ts)

/-- Whether a member has a value that 32 bits hold neither with nor without sign. -/
def needs64 (m : Member) : Bool :=
  match m.value with
  | .literal value _ => value ≥ 0x100000000 || value < -0x80000000
  | _ => false

/-- The group of a name, a declared width and members. Flags are told by their name, and values that
need 64 bits get them. -/
def groupOf (name : String) (width : Nat) (ms : List Member) : Group where
  name := name
  kind := if Text.contains Naming.flagBits name.toList then .bitmask else .plain
  width := if ms.any needs64 then 64 else width
  members := ms

/-- What an `enum` turned out to be. -/
inductive Item where
  | group (g : Group)
  /-- A body without a name. -/
  | anonymous
  /-- A mention without a body, with the line on which it ends. -/
  | bodiless (tag : Option String) (line : Nat)
  deriving DecidableEq, Repr

/-- What stands after the keyword `enum`, and what follows it. The tag names the group, or else the
identifier behind the body. -/
def enumeration (last : Nat) (ts : List Token) :
    Except Fault (Item × List Token) :=
  let tag := optionalWord (afterScope ts)
  let width := declaredWidth tag.2
  match next? width.2 with
  | some (⟨.mark .openBrace, _, _, _, _⟩, rest) =>
    match members last rest with
    | .error fault => .error fault
    | .ok (ms, rest) =>
      let behind := optionalWord rest
      match tag.1 <|> behind.1 with
      | some name => .ok (.group (groupOf name width.1 ms), behind.2)
      | none => .ok (.anonymous, behind.2)
  | _ => .ok (.bodiless tag.1 (lineOf last width.2), width.2)

theorem length_le_of_word? {ts rest : List Token} {name : String}
    (h : word? ts = some (name, rest)) : rest.length ≤ ts.length := by
  unfold word? at h
  split at h
  · rename_i heq
    cases h
    exact Nat.le_of_lt (length_lt_of_next? heq)
  · exact nomatch h

theorem length_afterScope_le (ts : List Token) : (afterScope ts).length ≤ ts.length := by
  unfold afterScope
  split
  · rename_i heq
    split
    · exact length_le_of_word? heq
    · exact Nat.le_refl _
  · exact Nat.le_refl _

theorem length_optionalWord_le (ts : List Token) : (optionalWord ts).2.length ≤ ts.length := by
  unfold optionalWord
  split
  · rename_i heq
    exact length_le_of_word? heq
  · exact Nat.le_refl _

theorem length_baseWidth_le (width : Nat) (ts : List Token) :
    (baseWidth width ts).2.length ≤ ts.length := by
  fun_induction baseWidth width ts with
  | case1 _ _ _ _ _ _ _ _ hnext ih =>
    exact Nat.le_trans ih (Nat.le_of_lt (length_lt_of_next? hnext))
  | case2 _ _ _ _ _ _ _ hnext ih =>
    exact Nat.le_trans ih (Nat.le_of_lt (length_lt_of_next? hnext))
  | case3 => exact Nat.le_refl _

theorem length_declaredWidth_le (ts : List Token) :
    (declaredWidth ts).2.length ≤ ts.length := by
  unfold declaredWidth
  split
  · rename_i heq
    exact Nat.le_trans (length_baseWidth_le 32 _) (Nat.le_of_lt (length_lt_of_next? heq))
  · exact Nat.le_refl _

/-- Reading an enumeration never gives tokens back. -/
theorem length_le_of_enumeration {last : Nat} {ts rest : List Token}
    {item : Item} (h : enumeration last ts = .ok (item, rest)) :
    rest.length ≤ ts.length := by
  have h₁ := length_afterScope_le ts
  have h₂ := length_optionalWord_le (afterScope ts)
  have h₃ := length_declaredWidth_le (optionalWord (afterScope ts)).2
  unfold enumeration at h
  dsimp only at h
  split at h
  · rename_i heq
    have h₄ := length_lt_of_next? heq
    split at h
    · exact nomatch h
    · rename_i ms after hms
      have h₅ := length_le_of_members hms
      have h₆ := length_optionalWord_le after
      split at h <;> cases h <;> omega
  · cases h
    omega

end Enumerant.Header
