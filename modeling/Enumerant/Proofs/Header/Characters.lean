import Mathlib.Data.Option.Basic
import Enumerant.Proofs.Header.Groups
import Enumerant.Proofs.Header.LiteralText
import Enumerant.Proofs.Naming.Characters

/-!
# The characters of what headers declare

Names in a header are words, and a line comment ends with its line, so neither holds a line break.
The text of a literal holds none either, and it does not begin as a word does: the first token of a
constant expression is a number or a punctuation. `isConfined_of_parse` puts this together for the
members of all groups.
-/

namespace Enumerant.Header

open Text

variable {text : String} {s : Schema} {g : Group} {m : Member} {last line : Nat} {name : String}
  {t : Token} {ts rest : List Token} {item : Item} {source : List Char} {v : Int}
  {c literal : String}

/-! ### Tokens -/

/-- A token that is no stray byte is a piece of its own, of one of the forms that pieces have. -/
theorem exists_form_of_suffix (h : t :: ts <:+ tokens text.toList) (ht : ∀ b, t.lexeme ≠ .stray b) :
    ∃ fresh rest p, Form fresh rest p ∧ p.kind = .token t.lexeme := by
  rw [tokens_eq_located] at h
  obtain ⟨before, p, after, hps, hkind, -⟩ := exists_piece_of_suffix h ht
  exact ⟨_, _, p, Piece.form_of_split hps, hkind⟩

theorem isWord_of_suffix (h : t :: ts <:+ tokens text.toList) (ht : t.lexeme = .word name) :
    IsWord name.toList := by
  obtain ⟨fresh, rest, p, hform, hkind⟩ := exists_form_of_suffix h (by simp [ht])
  rw [ht] at hkind
  cases hform with
  | word hc hcs =>
    cases hkind
    rw [String.toList_ofList]
    exact isWord_cons hc hcs
  | number => exact absurd (Piece.Kind.token.inj hkind) (numberLexeme_ne_word _ _)
  | _ => cases hkind

theorem newline_not_mem_of_suffix (h : t :: ts <:+ tokens text.toList)
    (ht : t.lexeme = .remark c) : '\n' ∉ c.toList := by
  obtain ⟨fresh, rest, p, hform, hkind⟩ := exists_form_of_suffix h (by simp [ht])
  rw [ht] at hkind
  cases hform with
  | remark hcs =>
    cases hkind
    rw [String.toList_ofList]
    intro hmem
    have htrim := (List.dropWhile_sublist isBlank).mem ((List.rdropWhile_prefix _ _).mem hmem)
    simpa using hcs _ htrim
  | number => exact absurd (Piece.Kind.token.inj hkind) (numberLexeme_ne_remark _ _)
  | _ => cases hkind

/-! ### Names -/

theorem exists_of_word? (h : word? ts = some (name, rest)) :
    ∃ t more, t :: more <:+ ts ∧ t.lexeme = .word name := by
  unfold word? at h
  split at h
  case h_1 heq =>
    cases h
    exact ⟨_, _, next?_suffix heq, rfl⟩
  case h_2 => cases h

theorem exists_of_optionalWord (h : (optionalWord ts).1 = some name) :
    ∃ t more, t :: more <:+ ts ∧ t.lexeme = .word name := by
  unfold optionalWord at h
  split at h
  case h_1 heq =>
    cases h
    exact exists_of_word? heq
  case h_2 => cases h

/-- The name of a group is one of the words that its enumeration is read from. -/
theorem exists_name_of_enumeration (h : enumeration last ts = .ok (.group g, rest)) :
    ∃ t more, t :: more <:+ ts ∧ t.lexeme = .word g.name := by
  unfold enumeration at h
  dsimp only at h
  split at h
  case h_1 body hnext =>
    split at h
    case h_1 => cases h
    case h_2 ms behind hms =>
      split at h
      case h_2 => cases h
      case h_1 name hname =>
        cases h
        rcases (Option.orElse_eq_some _ _ _).mp hname with hname | ⟨-, hname⟩
        · obtain ⟨t, more, hmore, ht⟩ := exists_of_optionalWord hname
          exact ⟨t, more, hmore.trans (afterScope_suffix ts), ht⟩
        · obtain ⟨t, more, hmore, ht⟩ := exists_of_optionalWord hname
          refine ⟨t, more, hmore.trans ((members_suffix hms).trans ?_), ht⟩
          exact (suffix_of_next? hnext).trans (body_suffix ts)
  case h_2 => cases h

theorem isWord_name_of_parse (h : parse text = .ok s) (hg : g ∈ s.groups) :
    IsWord g.name.toList := by
  rw [eq_schemaOf_of_parse h] at hg
  obtain ⟨first, later, hdecl, rfl⟩ := (collects_schemaOf _).declared g hg
  have hfirst : first ∈ declarations (read text).items first.name := by
    rw [show first.name = Group.name { first with members := _ } from rfl, hdecl]
    exact List.mem_cons_self
  obtain ⟨t, behind, rest, hkey, -, he⟩ := declares_of_mem_items (mem_declarations.mp hfirst).1
  obtain ⟨u, more, hmore, hu⟩ := exists_name_of_enumeration he
  exact isWord_of_suffix (hmore.trans ((List.suffix_cons t behind).trans hkey)) hu

/-! ### Comments -/

theorem exists_of_trailingRemark (h : (trailingRemark line ts).1 = some c) :
    ∃ t more, t :: more <:+ ts ∧ t.lexeme = .remark c := by
  rcases ts with - | ⟨t, ts⟩
  · cases h
  · simp only [trailingRemark] at h
    split at h
    case h_1 text ht =>
      split at h
      · cases h
        exact ⟨t, ts, List.suffix_refl _, ht⟩
      · cases h
    case h_2 => cases h

/-- The comment of a member is one of the line comments that the member is read from. -/
theorem exists_comment_of_member (h : member last name line ts = .ok (m, rest))
    (hc : m.comment = some c) : ∃ t more, t :: more <:+ ts ∧ t.lexeme = .remark c := by
  unfold member at h
  split at h
  case h_1 => cases h
  case h_2 value after hvalue =>
    have hafter := memberValue_suffix hvalue
    dsimp only at h
    split at h
    case h_1 => cases h
    case h_2 sep hsep =>
      split at h
      case h_1 text htext =>
        cases h
        cases hc
        obtain ⟨t, more, hmore, ht⟩ := exists_of_trailingRemark htext
        exact ⟨t, more, hmore.trans hafter, ht⟩
      case h_2 =>
        cases h
        obtain ⟨t, more, hmore, ht⟩ := exists_of_trailingRemark hc
        refine ⟨t, more, hmore.trans ((afterSeparator_suffix hsep).trans ?_), ht⟩
        exact (trailingRemark_suffix line after).trans hafter

/-! ### Texts of literals -/

/-- The text of a literal begins with a digit or a punctuation. -/
theorem Written.not_isWordStart (h : Written text m source) (hm : m.value = .literal v literal) :
    ∀ c ∈ literal.toList.head?, isWordStart c = false := by
  obtain ⟨hv, hne, htext⟩ := h.constant?_core hm
  obtain ⟨fresh, hsplit⟩ := exists_split_core false source
  obtain ⟨p, mid, hfirst, hp⟩ := exists_core_eq_cons hne
  obtain ⟨mid', q, hlast, hq⟩ := exists_core_eq_append hne
  obtain ⟨l, hkind, hsolid⟩ := Piece.exists_of_isSolid hp
    (not_stray_of_constant? hv (by simp [hfirst]))
  have hl : l ∈ ((core (Piece.split false source)).flatMap Piece.lexemes).filter Lexeme.isSolid :=
    List.mem_filter.mpr ⟨List.mem_flatMap.mpr ⟨p, by simp [hfirst], by simp [Piece.lexemes, hkind]⟩,
      hsolid⟩
  have hform := (Piece.begins_of_split (hsplit.trans hfirst)).2.1.form
  -- The first token is a number or a punctuation, as words have no value.
  have hstart : ∃ c cs, p.text = c :: cs ∧ isWordStart c = false ∧ isBlank c = false := by
    have hblank := hform.not_isBlank hkind hsolid
    cases hform with
    | number hc =>
      exact ⟨_, _, rfl, not_isWordStart_of_isDigit hc, hblank _ List.mem_cons_self⟩
    | @mark q =>
      cases q <;> exact ⟨_, _, rfl, by decide, hblank _ List.mem_cons_self⟩
    | word =>
      cases hkind
      rcases exists_of_constant? hv hl with ⟨w, hw⟩ | ⟨q, hq⟩
      · cases hw
      · cases hq
    | remark =>
      cases hkind
      cases hsolid
    | _ => cases hkind
  obtain ⟨c, cs, hc, hstart, hblank⟩ := hstart
  rw [htext, collapsed_eq_squeeze (blankAfter_of_constant? hsplit hlast hq hv), hfirst,
    List.flatMap_cons, hc, List.cons_append, squeeze_cons_of_not_blank hblank]
  rintro d ⟨⟩
  exact hstart

/-! ### Members -/

/-- A member whose name is a word, and whose other texts hold no line break. The text of a literal
is told from a word by its first character. -/
structure IsConfined (m : Member) : Prop where
  name : IsWord m.name.toList
  comment : ∀ c ∈ m.comment, '\n' ∉ c.toList
  newline_not_mem_literal : ∀ v t, m.value = .literal v t → '\n' ∉ t.toList
  not_isWordStart_literal : ∀ v t, m.value = .literal v t →
    ∀ c ∈ t.toList.head?, isWordStart c = false

/-- **Members of a header keep to their lines.** -/
theorem isConfined_of_parse (h : parse text = .ok s) (hg : g ∈ s.groups) (hm : m ∈ g.members) :
    IsConfined m := by
  obtain ⟨last, hdeclares⟩ := declaresMember_of_parse h hg hm
  have hwritten : ∀ v t, m.value = .literal v t → ∃ source, Written text m source := by
    intro v t hv
    exact exists_written hdeclares (by simp [hv])
  obtain ⟨t, behind, name, rest, hname, hword, hmember⟩ := hdeclares
  obtain ⟨rfl, -⟩ := memberValue_of_member hmember
  refine ⟨isWord_of_suffix hname hword, fun c hc => ?_, fun v t hv => ?_, fun v t hv => ?_⟩
  · obtain ⟨u, more, hmore, hu⟩ := exists_comment_of_member hmember hc
    exact newline_not_mem_of_suffix (hmore.trans ((List.suffix_cons t behind).trans hname)) hu
  · obtain ⟨source, hsource⟩ := hwritten v t hv
    exact (hsource.means_iff hv).2.1
  · obtain ⟨source, hsource⟩ := hwritten v t hv
    exact hsource.not_isWordStart hv

end Enumerant.Header
