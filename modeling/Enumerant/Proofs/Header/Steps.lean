import Enumerant.Header.Reading

/-!
# Steps through tokens

Every reader of tokens looks at the next one that is no comment and goes on behind it. The equations
of the readers are stated here without the proofs that their recursion ends with, and what a reader
leaves is an end of what it got (`next?_suffix`, `enumeration_suffix`). What a header declares can
therefore be traced back to where it stands: a group to a keyword (`declares_of_mem_items`) and a
member of it to its name (`declaresMember_of_mem`).
-/

namespace Enumerant.Header

variable {last depth line width : Nat} {name : String} {ts rest expr : List Token} {t : Token}
  {m : Member} {ms : List Member} {item : Item}

/-! ### Equations -/

/-- One step of reading an initializer, by the next token that is no comment. -/
theorem initializerTokens_eq (last depth : Nat) (ts : List Token) :
    initializerTokens last depth ts =
      match next? ts with
      | none => .error ⟨lineOf last ts, .unterminatedInitializer⟩
      | some (t, rest) =>
        if (t.lexeme = .mark .comma ∨ t.lexeme = .mark .closeBrace) ∧ depth = 0 then .ok ([], ts)
        else if t.lexeme = .mark .semicolon ∨ t.lexeme = .mark .openBrace then
          .error ⟨lineOf last ts, .unexpectedInInitializer⟩
        else
          match initializerTokens last (depthAfter t.lexeme depth) rest with
          | .ok (expr, rest) => .ok (t :: expr, rest)
          | .error fault => .error fault := by
  rw [initializerTokens]
  split
  case h_1 h => rw [h]
  case h_2 t rest h => exact h ▸ rfl

/-- One step of reading members. -/
theorem members_eq (last : Nat) (ts : List Token) :
    members last ts =
      match next? ts with
      | none => .error ⟨last, .unterminatedBody⟩
      | some (t, rest) =>
        match t.lexeme with
        | .mark .closeBrace => .ok ([], rest)
        | .mark .comma => members last rest
        | .word name =>
          match member last name t.line rest with
          | .error fault => .error fault
          | .ok (m, rest) =>
            match members last rest with
            | .ok (ms, rest) => .ok (m :: ms, rest)
            | .error fault => .error fault
        | lexeme => .error ⟨lineOf last rest, .unexpectedInBody lexeme⟩ := by
  rw [members]
  split
  case h_1 h => rw [h]
  case h_2 t rest h =>
    obtain ⟨lexeme, line, start, stop, onward⟩ := t
    rw [h]
    cases lexeme with
    | word name =>
      dsimp only
      cases member last name line rest <;> rfl
    | mark p => cases p <;> rfl
    | _ => rfl

/-- One step of reading a base type. -/
theorem baseWidth_eq (width : Nat) (ts : List Token) :
    baseWidth width ts =
      match next? ts with
      | some (⟨.word name, _, _, _, _⟩, rest) => baseWidth ((widthOfType? name).getD width) rest
      | some (⟨.mark .colon, _, _, _, _⟩, rest) => baseWidth width rest
      | _ => (width, ts) := by
  rw [baseWidth]
  split <;> simp_all only

/-- One step of reading outside of bodies. -/
theorem readTokens_eq (last depth : Nat) (ts : List Token) :
    readTokens last depth ts =
      match next? ts with
      | none => if depth = 0 then {} else { fault := some ⟨last, .unclosedBrace⟩ }
      | some (t, rest) =>
        match t.lexeme with
        | .mark .openBrace => readTokens last (depth + 1) rest
        | .mark .closeBrace =>
          match depth with
          | 0 => { fault := some ⟨lineOf last rest, .unbalancedBrace⟩ }
          | depth + 1 => readTokens last depth rest
        | .word name =>
          if name = "enum" then
            match enumeration last rest with
            | .error fault => { fault := some fault }
            | .ok (item, rest) => (readTokens last depth rest).cons item
          else readTokens last depth rest
        | _ => readTokens last depth rest := by
  rw [readTokens.eq_def]
  split
  case h_1 h => rw [h]
  case h_2 t rest h =>
    obtain ⟨lexeme, line, start, stop, onward⟩ := t
    rw [h]
    cases lexeme with
    | word name =>
      by_cases hn : name = "enum"
      · simp only [hn, if_true]
        split <;> rename_i he <;> simp only [he]
      · simp only [hn, if_false]
    | mark p => cases p <;> cases depth <;> rfl
    | _ => rfl

/-! ### The first token -/

/-- A token that is no comment is the next one. -/
@[simp]
theorem next?_cons (ht : ∀ text, t.lexeme ≠ .remark text) (ts : List Token) :
    next? (t :: ts) = some (t, ts) := by
  unfold next? dropRemarks
  split
  case h_1 h =>
    split at h
    · exact absurd ‹_› (ht _)
    · cases h
  case h_2 h =>
    split at h
    · exact absurd ‹_› (ht _)
    · cases h
      rfl

/-- Comments are passed over on the way to the next token. -/
theorem next?_cons_remark {text : String} (ht : t.lexeme = .remark text) (ts : List Token) :
    next? (t :: ts) = next? ts := by
  unfold next?
  rw [dropRemarks, ht]

@[simp]
theorem readTokens_nil (last : Nat) : readTokens last 0 [] = {} := by
  rw [readTokens_eq]
  rfl

/-- An opening brace outside of bodies counts. -/
@[simp]
theorem readTokens_cons_open (ht : t.lexeme = .mark .openBrace) (last depth : Nat)
    (ts : List Token) : readTokens last depth (t :: ts) = readTokens last (depth + 1) ts := by
  rw [readTokens_eq, next?_cons (by simp [ht])]
  simp only [ht]

/-- A closing brace takes one that was opened back. -/
@[simp]
theorem readTokens_cons_close (ht : t.lexeme = .mark .closeBrace) (last depth : Nat)
    (ts : List Token) : readTokens last (depth + 1) (t :: ts) = readTokens last depth ts := by
  rw [readTokens_eq, next?_cons (by simp [ht])]
  simp only [ht]

/-- Reading passes over every token but braces and the keyword. -/
@[simp]
theorem readTokens_cons (h₁ : t.lexeme ≠ .mark .openBrace) (h₂ : t.lexeme ≠ .mark .closeBrace)
    (h₃ : t.lexeme ≠ .word "enum") (last depth : Nat) (ts : List Token) :
    readTokens last depth (t :: ts) = readTokens last depth ts := by
  by_cases hr : ∃ text, t.lexeme = .remark text
  · obtain ⟨text, hr⟩ := hr
    rw [readTokens_eq last depth (t :: ts), next?_cons_remark hr, ← readTokens_eq]
  · rw [readTokens_eq, next?_cons (by simpa using hr)]
    obtain ⟨lexeme, line, start, stop, onward⟩ := t
    dsimp only at *
    split <;> simp_all

/-- The keyword has an enumeration read, and what follows is read behind it. -/
@[simp]
theorem readTokens_cons_enum (ht : t.lexeme = .word "enum") (last depth : Nat)
    (ts : List Token) :
    readTokens last depth (t :: ts) =
      match enumeration last ts with
      | .error fault => { fault := some fault }
      | .ok (item, rest) => (readTokens last depth rest).cons item := by
  rw [readTokens_eq, next?_cons (by simp [ht])]
  simp only [ht, if_true]

/-- A brace ends the members. -/
@[simp]
theorem members_cons_close (ht : t.lexeme = .mark .closeBrace) (last : Nat) (ts : List Token) :
    members last (t :: ts) = .ok ([], ts) := by
  rw [members_eq, next?_cons (by simp [ht])]
  simp only [ht]

/-- Commas between members may be more than one. -/
@[simp]
theorem members_cons_comma (ht : t.lexeme = .mark .comma) (last : Nat) (ts : List Token) :
    members last (t :: ts) = members last ts := by
  rw [members_eq, next?_cons (by simp [ht])]
  simp only [ht]

/-- A word is the name of a member, and more members follow behind it. -/
@[simp]
theorem members_cons_word (ht : t.lexeme = .word name) (last : Nat) (ts : List Token) :
    members last (t :: ts) =
      match member last name t.line ts with
      | .error fault => .error fault
      | .ok (m, rest) =>
        match members last rest with
        | .ok (ms, rest) => .ok (m :: ms, rest)
        | .error fault => .error fault := by
  rw [members_eq, next?_cons (by simp [ht])]
  simp only [ht]

/-- An initializer ends in front of a comma or a closing brace outside parentheses. -/
@[simp]
theorem initializerTokens_cons_stop (ht : t.lexeme = .mark .comma ∨ t.lexeme = .mark .closeBrace)
    (last : Nat) (ts : List Token) : initializerTokens last 0 (t :: ts) = .ok ([], t :: ts) := by
  rw [initializerTokens_eq, next?_cons (by rintro text h; simp [h] at ht)]
  simp [ht]

/-- Any token that neither ends an initializer nor is an error is part of it. -/
@[simp]
theorem initializerTokens_cons (h₁ : t.lexeme ≠ .mark .comma) (h₂ : t.lexeme ≠ .mark .closeBrace)
    (h₃ : t.lexeme ≠ .mark .semicolon) (h₄ : t.lexeme ≠ .mark .openBrace)
    (h₅ : ∀ text, t.lexeme ≠ .remark text) (last depth : Nat) (ts : List Token) :
    initializerTokens last depth (t :: ts) =
      match initializerTokens last (depthAfter t.lexeme depth) ts with
      | .ok (expr, rest) => .ok (t :: expr, rest)
      | .error fault => .error fault := by
  rw [initializerTokens_eq, next?_cons h₅]
  simp only [h₁, h₂, h₃, h₄, or_self, false_and, if_false]

/-! ### What stands in front of a body -/

/-- A word is found behind comments. -/
theorem word?_of_next? (h : next? ts = some (t, rest)) (ht : t.lexeme = .word name) :
    word? ts = some (name, rest) := by
  obtain ⟨lexeme, line, start, stop, onward⟩ := t
  subst ht
  rw [word?, h]

theorem word?_of_next?_of_ne (h : next? ts = some (t, rest)) (ht : ∀ name, t.lexeme ≠ .word name) :
    word? ts = none := by
  obtain ⟨lexeme, line, start, stop, onward⟩ := t
  rw [word?, h]
  split
  case h_1 heq =>
    cases heq
    exact absurd rfl (ht _)
  case h_2 => rfl

theorem word?_cons (ht : t.lexeme = .word name) (ts : List Token) :
    word? (t :: ts) = some (name, ts) :=
  word?_of_next? (next?_cons (by simp [ht]) ts) ht

theorem word?_cons_of_ne (hsolid : ∀ text, t.lexeme ≠ .remark text)
    (hword : ∀ name, t.lexeme ≠ .word name) (ts : List Token) : word? (t :: ts) = none :=
  word?_of_next?_of_ne (next?_cons hsolid ts) hword

theorem optionalWord_cons (ht : t.lexeme = .word name) (ts : List Token) :
    optionalWord (t :: ts) = (some name, ts) := by
  rw [optionalWord, word?_cons ht]

/-- Where no word stands, nothing is taken. -/
theorem optionalWord_cons_of_ne (hsolid : ∀ text, t.lexeme ≠ .remark text)
    (hword : ∀ name, t.lexeme ≠ .word name) (ts : List Token) :
    optionalWord (t :: ts) = (none, t :: ts) := by
  rw [optionalWord, word?_cons_of_ne hsolid hword]

/-- The word that makes an enumeration scoped is passed over. -/
theorem afterScope_cons_scope (ht : t.lexeme = .word name)
    (hname : name = "class" ∨ name = "struct") (ts : List Token) : afterScope (t :: ts) = ts := by
  rw [afterScope, word?_cons ht]
  exact if_pos hname

/-- Any other word is left to be the tag. -/
theorem afterScope_cons (ht : t.lexeme = .word name) (hname : ¬ (name = "class" ∨ name = "struct"))
    (ts : List Token) : afterScope (t :: ts) = t :: ts := by
  rw [afterScope, word?_cons ht]
  exact if_neg hname

theorem afterScope_cons_of_ne (hsolid : ∀ text, t.lexeme ≠ .remark text)
    (hword : ∀ name, t.lexeme ≠ .word name) (ts : List Token) :
    afterScope (t :: ts) = t :: ts := by
  rw [afterScope, word?_cons_of_ne hsolid hword]

/-- Without a colon the width is that of no base type. -/
theorem declaredWidth_of_not_colon (h : nextIs .colon ts = false) :
    declaredWidth ts = (32, ts) := by
  unfold declaredWidth
  split
  case h_1 heq => simp [nextIs, heq] at h
  case h_2 => rfl

theorem declaredWidth_cons_colon (ht : t.lexeme = .mark .colon) (ts : List Token) :
    declaredWidth (t :: ts) = baseWidth 32 ts := by
  obtain ⟨lexeme, line, start, stop, onward⟩ := t
  subst ht
  rw [declaredWidth, next?_cons (by simp)]

theorem declaredWidth_cons (hsolid : ∀ text, t.lexeme ≠ .remark text)
    (hcolon : t.lexeme ≠ .mark .colon) (ts : List Token) :
    declaredWidth (t :: ts) = (32, t :: ts) := by
  refine declaredWidth_of_not_colon ?_
  rw [nextIs, next?_cons hsolid]
  exact decide_eq_false hcolon

/-- A known word sets the width anew. -/
theorem baseWidth_cons_word (ht : t.lexeme = .word name) (width : Nat) (ts : List Token) :
    baseWidth width (t :: ts) = baseWidth ((widthOfType? name).getD width) ts := by
  obtain ⟨lexeme, line, start, stop, onward⟩ := t
  subst ht
  rw [baseWidth_eq, next?_cons (by simp)]

theorem baseWidth_cons_colon (ht : t.lexeme = .mark .colon) (width : Nat) (ts : List Token) :
    baseWidth width (t :: ts) = baseWidth width ts := by
  obtain ⟨lexeme, line, start, stop, onward⟩ := t
  subst ht
  rw [baseWidth_eq, next?_cons (by simp)]

theorem baseWidth_cons_open (ht : t.lexeme = .mark .openBrace) (width : Nat) (ts : List Token) :
    baseWidth width (t :: ts) = (width, t :: ts) := by
  obtain ⟨lexeme, line, start, stop, onward⟩ := t
  subst ht
  rw [baseWidth_eq, next?_cons (by simp)]

/-! ### What comes next -/

/-- Only an equals sign makes a value explicit. -/
theorem memberValue_of_next? (h : next? ts = some (t, rest)) (last : Nat) :
    memberValue last ts =
      if t.lexeme = .mark .assign then initializer last rest else .ok (.implicit, ts) := by
  obtain ⟨lexeme, line, start, stop, onward⟩ := t
  rw [memberValue, h]
  split
  case h_1 heq =>
    cases heq
    rfl
  case h_2 hne => exact (if_neg fun hl => hne line start stop onward rest (by rw [← hl])).symm

/-- Behind a member there must be a comma or the closing brace. -/
theorem afterSeparator_of_next? (h : next? ts = some (t, rest)) (last : Nat) (name : String) :
    afterSeparator last name ts =
      if t.lexeme = .mark .comma then .ok rest
      else if t.lexeme = .mark .closeBrace then .ok ts
      else .error ⟨lineOf last ts, .missingSeparator name⟩ := by
  obtain ⟨lexeme, line, start, stop, onward⟩ := t
  rw [afterSeparator, h]
  split
  case h_1 heq =>
    cases heq
    rfl
  case h_2 heq =>
    cases heq
    rfl
  case h_3 hcomma hclose =>
    rw [if_neg fun hl => hcomma line start stop onward rest (by rw [← hl]),
      if_neg fun hl => hclose line start stop onward rest (by rw [← hl])]

theorem declaredWidth_of_next? (h : next? ts = some (t, rest)) :
    declaredWidth ts = if t.lexeme = .mark .colon then baseWidth 32 rest else (32, ts) := by
  obtain ⟨lexeme, line, start, stop, onward⟩ := t
  rw [declaredWidth, h]
  split
  case h_1 heq =>
    cases heq
    rfl
  case h_2 hne => exact (if_neg fun hl => hne line start stop onward rest (by rw [← hl])).symm

/-- What a body declares, by its name if it has one. -/
def itemOf (name : Option String) (width : Nat) (ms : List Member) : Item :=
  match name with
  | some name => .group (groupOf name width ms)
  | none => .anonymous

/-- An enumeration is what the token behind its tag and its type makes it. -/
theorem enumeration_of_next?
    (h : next? (declaredWidth (optionalWord (afterScope ts)).2).2 = some (t, rest)) (last : Nat) :
    enumeration last ts =
      if t.lexeme = .mark .openBrace then
        (members last rest).map fun body =>
          (itemOf ((optionalWord (afterScope ts)).1 <|> (optionalWord body.2).1)
            (declaredWidth (optionalWord (afterScope ts)).2).1 body.1, (optionalWord body.2).2)
      else
        .ok (.bodiless (optionalWord (afterScope ts)).1
          (lineOf last (declaredWidth (optionalWord (afterScope ts)).2).2),
          (declaredWidth (optionalWord (afterScope ts)).2).2) := by
  obtain ⟨lexeme, line, start, stop, onward⟩ := t
  simp only [enumeration, h]
  split
  case h_1 heq =>
    cases heq
    rw [if_pos rfl]
    rcases members last rest with fault | ⟨ms, behind⟩
    · rfl
    · cases hname : (optionalWord (afterScope ts)).1 <|> (optionalWord behind).1 <;>
        simp [Except.map, itemOf, hname]
  case h_2 hne => exact (if_neg fun hl => hne line start stop onward rest (by rw [← hl])).symm

/-! ### Comments -/

/-- A lexeme that is no comment. -/
def Lexeme.isSolid : Lexeme → Bool
  | .remark _ => false
  | _ => true

@[simp]
theorem Lexeme.isSolid_remark (text : String) : (Lexeme.remark text).isSolid = false := rfl

theorem Lexeme.isSolid_iff {l : Lexeme} : l.isSolid ↔ ∀ text, l ≠ .remark text := by
  cases l <;> simp [isSolid, -isSolid_remark]

/-- Tokens that no comment stands in front of. -/
def StartSolid (ts : List Token) : Prop :=
  ∀ t ∈ ts.head?, t.lexeme.isSolid

/-- Where no comment stands, none is found. -/
theorem trailingRemark_of_startSolid (h : StartSolid ts) (line : Nat) :
    trailingRemark line ts = (none, ts) := by
  rcases ts with - | ⟨t, ts⟩
  · rfl
  · have ht := Lexeme.isSolid_iff.mp (h t rfl)
    unfold trailingRemark
    split
    case h_1 heq => cases heq
    case h_2 u us heq =>
      cases heq
      split
      case h_1 text htext => exact absurd htext (ht text)
      case h_2 => rfl

/-- The next token stands behind comments. -/
theorem exists_of_next? (h : next? ts = some (t, rest)) :
    ∃ remarks, ts = remarks ++ t :: rest ∧ remarks.filter (·.lexeme.isSolid) = [] ∧
      t.lexeme.isSolid := by
  induction ts with
  | nil => cases h
  | cons u ts ih =>
    by_cases hu : ∃ text, u.lexeme = .remark text
    · obtain ⟨text, hu⟩ := hu
      rw [next?_cons_remark hu] at h
      obtain ⟨remarks, rfl, hremarks, ht⟩ := ih h
      exact ⟨u :: remarks, rfl, by rw [List.filter_cons_of_neg (by simp [hu]), hremarks], ht⟩
    · have hsolid : ∀ text, u.lexeme ≠ .remark text := by simpa using hu
      rw [next?_cons hsolid] at h
      cases h
      exact ⟨[], rfl, rfl, Lexeme.isSolid_iff.mpr hsolid⟩

/-- The tokens of an initializer are those in front of the comma or brace that ends it, comments
apart. -/
theorem exists_of_initializerTokens (h : initializerTokens last depth ts = .ok (expr, rest)) :
    ∃ front stop tail, ts = front ++ rest ∧ front.filter (·.lexeme.isSolid) = expr ∧
      next? rest = some (stop, tail) ∧
      (stop.lexeme = .mark .comma ∨ stop.lexeme = .mark .closeBrace) := by
  fun_induction initializerTokens last depth ts generalizing expr rest with
  | case1 => cases h
  | case2 depth ts stop tail hnext hstop =>
    cases h
    exact ⟨[], stop, tail, rfl, rfl, hnext, hstop.1⟩
  | case3 => cases h
  | case4 depth ts t after hnext _ _ expr rest heq ih =>
    cases h
    obtain ⟨front, stop, tail, rfl, rfl, hrest⟩ := ih heq
    obtain ⟨remarks, rfl, hremarks, ht⟩ := exists_of_next? hnext
    exact ⟨remarks ++ t :: front, stop, tail, by simp, by simp [hremarks, ht], hrest⟩
  | case5 => cases h

/-- The value of an initializer is classified from its tokens, of which there is one at least. -/
theorem exists_of_initializer {value : Initializer}
    (h : initializer last ts = .ok (value, rest)) :
    ∃ first more, initializerTokens last 0 ts = .ok (first :: more, rest) ∧
      value = classify first more := by
  unfold initializer at h
  split at h
  · cases h
  · rename_i first more rest heq
    cases h
    exact ⟨first, more, heq, rfl⟩
  · cases h

/-- A value is written behind an equals sign, or not at all. -/
theorem memberValue_eq_ok {value : Initializer} (h : memberValue last ts = .ok (value, rest)) :
    (∃ equals after, next? ts = some (equals, after) ∧ equals.lexeme = .mark .assign ∧
      initializer last after = .ok (value, rest)) ∨
    value = .implicit ∧ rest = ts ∧ nextIs .assign ts = false := by
  unfold memberValue at h
  split at h
  case h_1 hnext => exact .inl ⟨_, _, hnext, rfl, h⟩
  case h_2 hnone =>
    cases h
    refine .inr ⟨rfl, rfl, ?_⟩
    unfold nextIs
    split
    case h_1 t after hnext =>
      obtain ⟨lexeme, line, start, stop, onward⟩ := t
      rw [decide_eq_false_iff_not]
      rintro rfl
      exact hnone line start stop onward after hnext
    case h_2 => rfl

/-- A member keeps the value that is written behind its name. -/
theorem memberValue_of_member (h : member last name line ts = .ok (m, rest)) :
    m.name = name ∧ ∃ after, memberValue last ts = .ok (m.value, after) := by
  unfold member at h
  split at h
  · cases h
  · rename_i value after hvalue
    dsimp only at h
    split at h
    · cases h
    · split at h <;> cases h <;> exact ⟨rfl, after, hvalue⟩

/-! ### What is left -/

theorem dropRemarks_suffix (ts : List Token) : dropRemarks ts <:+ ts := by
  induction ts with
  | nil => exact List.suffix_refl []
  | cons t ts ih =>
    unfold dropRemarks
    split
    · exact ih.trans (List.suffix_cons t ts)
    · exact List.suffix_refl _

/-- What is left to read is always an end of the tokens, so that positions are those of one text. -/
theorem next?_suffix (h : next? ts = some (t, rest)) : t :: rest <:+ ts := by
  have hs := dropRemarks_suffix ts
  unfold next? at h
  split at h
  · cases h
  · rename_i heq
    cases h
    rwa [heq] at hs

theorem suffix_of_next? (h : next? ts = some (t, rest)) : rest <:+ ts :=
  (List.suffix_cons t rest).trans (next?_suffix h)

theorem word?_suffix (h : word? ts = some (name, rest)) : rest <:+ ts := by
  unfold word? at h
  split at h
  · rename_i heq
    cases h
    exact suffix_of_next? heq
  · cases h

/-- Reading an initializer leaves an end of the tokens. -/
theorem initializerTokens_suffix (h : initializerTokens last depth ts = .ok (expr, rest)) :
    rest <:+ ts := by
  fun_induction initializerTokens last depth ts generalizing expr rest with
  | case1 => cases h
  | case2 => cases h; exact List.suffix_refl _
  | case3 => cases h
  | case4 _ _ _ _ hnext _ _ _ _ heq ih =>
    cases h
    exact (ih heq).trans (suffix_of_next? hnext)
  | case5 => cases h

theorem initializer_suffix {value : Initializer} (h : initializer last ts = .ok (value, rest)) :
    rest <:+ ts := by
  unfold initializer at h
  split at h
  · cases h
  · rename_i heq
    cases h
    exact initializerTokens_suffix heq
  · cases h

theorem trailingRemark_suffix (line : Nat) (ts : List Token) :
    (trailingRemark line ts).2 <:+ ts := by
  cases ts with
  | nil => exact List.suffix_refl []
  | cons t ts =>
    simp only [trailingRemark]
    split
    · split
      · exact List.suffix_cons t ts
      · exact List.suffix_refl _
    · exact List.suffix_refl _

theorem memberValue_suffix {value : Initializer} (h : memberValue last ts = .ok (value, rest)) :
    rest <:+ ts := by
  unfold memberValue at h
  split at h
  · rename_i heq
    exact (initializer_suffix h).trans (suffix_of_next? heq)
  · cases h
    exact List.suffix_refl _

theorem afterSeparator_suffix (h : afterSeparator last name ts = .ok rest) : rest <:+ ts := by
  unfold afterSeparator at h
  split at h
  · rename_i heq
    cases h
    exact suffix_of_next? heq
  · cases h
    exact List.suffix_refl _
  · cases h

theorem member_suffix (h : member last name line ts = .ok (m, rest)) : rest <:+ ts := by
  unfold member at h
  split at h
  · cases h
  · rename_i value after hvalue
    dsimp only at h
    split at h
    · cases h
    · rename_i sep hsep
      have hs : sep <:+ ts := (afterSeparator_suffix hsep).trans
        ((trailingRemark_suffix line after).trans (memberValue_suffix hvalue))
      split at h
      · cases h
        exact hs
      · cases h
        exact (trailingRemark_suffix line sep).trans hs

/-- Reading members leaves an end of the tokens. -/
theorem members_suffix (h : members last ts = .ok (ms, rest)) : rest <:+ ts := by
  fun_induction members last ts generalizing ms rest with
  | case1 => cases h
  | case2 _ _ _ hnext => cases h; exact suffix_of_next? hnext
  | case3 _ _ _ hnext _ ih => exact (ih h).trans (suffix_of_next? hnext)
  | case4 => cases h
  | case5 _ _ _ hnext _ _ _ _ hm _ _ hms ih =>
    cases h
    exact (ih hms).trans ((member_suffix hm).trans (suffix_of_next? hnext))
  | case6 => cases h
  | case7 => cases h

theorem afterScope_suffix (ts : List Token) : afterScope ts <:+ ts := by
  unfold afterScope
  split
  · rename_i heq
    split
    · exact word?_suffix heq
    · exact List.suffix_refl _
  · exact List.suffix_refl _

theorem optionalWord_suffix (ts : List Token) : (optionalWord ts).2 <:+ ts := by
  unfold optionalWord
  split
  · rename_i heq
    exact word?_suffix heq
  · exact List.suffix_refl _

/-- Reading a base type leaves an end of the tokens. -/
theorem baseWidth_suffix (width : Nat) (ts : List Token) : (baseWidth width ts).2 <:+ ts := by
  fun_induction baseWidth width ts with
  | case1 _ _ _ _ _ _ _ _ hnext ih => exact ih.trans (suffix_of_next? hnext)
  | case2 _ _ _ _ _ _ _ hnext ih => exact ih.trans (suffix_of_next? hnext)
  | case3 => exact List.suffix_refl _

theorem declaredWidth_suffix (ts : List Token) : (declaredWidth ts).2 <:+ ts := by
  unfold declaredWidth
  split
  · rename_i heq
    exact (baseWidth_suffix 32 _).trans (suffix_of_next? heq)
  · exact List.suffix_refl _

/-- The tokens in which the body of an enumeration is looked for, from those behind its keyword. -/
theorem body_suffix (ts : List Token) :
    (declaredWidth (optionalWord (afterScope ts)).2).2 <:+ ts :=
  (declaredWidth_suffix _).trans ((optionalWord_suffix _).trans (afterScope_suffix ts))

/-- An enumeration with a body and a name. -/
theorem enumeration_group {g : Group} (h : enumeration last ts = .ok (.group g, rest)) :
    ∃ (t : Token) (body behind : List Token) (name : String) (ms : List Member),
      next? (declaredWidth (optionalWord (afterScope ts)).2).2 = some (t, body) ∧
      t.lexeme = .mark .openBrace ∧ members last body = .ok (ms, behind) ∧
      g = groupOf name (declaredWidth (optionalWord (afterScope ts)).2).1 ms := by
  unfold enumeration at h
  dsimp only at h
  split at h
  · rename_i body hnext
    split at h
    · cases h
    · rename_i ms behind hms
      split at h
      · rename_i name _
        cases h
        exact ⟨_, body, behind, name, ms, hnext, rfl, hms, rfl⟩
      · cases h
  · cases h

/-- Reading an enumeration leaves an end of the tokens. -/
theorem enumeration_suffix (h : enumeration last ts = .ok (item, rest)) : rest <:+ ts := by
  unfold enumeration at h
  dsimp only at h
  split at h
  · rename_i hnext
    split at h
    · cases h
    · rename_i ms after hms
      have hs : after <:+ ts :=
        (members_suffix hms).trans ((suffix_of_next? hnext).trans (body_suffix ts))
      split at h <;> cases h <;> exact (optionalWord_suffix after).trans hs
  · cases h
    exact body_suffix ts

/-! ### Where declarations stand -/

/-- An item is what stands behind a keyword `enum` among some tokens. -/
def Declares (last : Nat) (ts : List Token) (item : Item) : Prop :=
  ∃ t behind rest, t :: behind <:+ ts ∧ t.lexeme = .word "enum" ∧
    enumeration last behind = .ok (item, rest)

/-- What an end of some tokens declares is declared by all of them. -/
theorem Declares.of_suffix (h : Declares last rest item) (hs : rest <:+ ts) :
    Declares last ts item := by
  obtain ⟨t, behind, rest, hkey, hitem⟩ := h
  exact ⟨t, behind, rest, hkey.trans hs, hitem⟩

/-- A member is what stands behind a word among some tokens. -/
def DeclaresMember (last : Nat) (ts : List Token) (m : Member) : Prop :=
  ∃ t behind name rest, t :: behind <:+ ts ∧ t.lexeme = .word name ∧
    member last name t.line behind = .ok (m, rest)

theorem DeclaresMember.of_suffix (h : DeclaresMember last rest m) (hs : rest <:+ ts) :
    DeclaresMember last ts m := by
  obtain ⟨t, behind, name, rest, hname, hm⟩ := h
  exact ⟨t, behind, name, rest, hname.trans hs, hm⟩

/-- Every item that is read is declared somewhere. -/
theorem declares_of_mem_items (h : item ∈ (readTokens last depth ts).items) :
    Declares last ts item := by
  fun_induction readTokens last depth ts with
  | case1 => exact absurd h List.not_mem_nil
  | case2 => exact absurd h List.not_mem_nil
  | case3 _ _ _ _ hnext _ ih => exact (ih h).of_suffix (suffix_of_next? hnext)
  | case4 => exact absurd h List.not_mem_nil
  | case5 _ _ _ hnext _ _ ih => exact (ih h).of_suffix (suffix_of_next? hnext)
  | case6 => exact absurd h List.not_mem_nil
  | case7 _ _ t behind hnext _ rest he hkey ih =>
    rcases List.mem_cons.mp h with rfl | h
    · exact ⟨t, behind, rest, next?_suffix hnext, hkey, he⟩
    · exact (ih h).of_suffix ((enumeration_suffix he).trans (suffix_of_next? hnext))
  | case8 _ _ _ _ hnext _ _ _ ih => exact (ih h).of_suffix (suffix_of_next? hnext)
  | case9 _ _ _ _ hnext _ _ _ ih => exact (ih h).of_suffix (suffix_of_next? hnext)

/-- Every member that is read is declared somewhere in the body. -/
theorem declaresMember_of_mem (h : members last ts = .ok (ms, rest)) (hm : m ∈ ms) :
    DeclaresMember last ts m := by
  fun_induction members last ts generalizing ms rest with
  | case1 => cases h
  | case2 => cases h; exact absurd hm List.not_mem_nil
  | case3 _ _ _ hnext _ ih => exact (ih h hm).of_suffix (suffix_of_next? hnext)
  | case4 => cases h
  | case5 ts t behind hnext name hname n after hn ns rest hns ih =>
    cases h
    rcases List.mem_cons.mp hm with rfl | hm
    · exact ⟨t, behind, name, after, next?_suffix hnext, hname, hn⟩
    · exact (ih hns hm).of_suffix ((member_suffix hn).trans (suffix_of_next? hnext))
  | case6 => cases h
  | case7 => cases h

end Enumerant.Header
