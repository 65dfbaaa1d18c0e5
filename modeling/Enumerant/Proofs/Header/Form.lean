import Enumerant.Proofs.Header.Piece
import Enumerant.Proofs.Text.Part

/-!
# The forms of pieces

A text begins with a piece exactly if the piece has one of the forms of `Form`: `begins_iff_form`.
Words and numbers, in particular, go on as long as they can, and a slash stands alone only where it
opens no comment.
-/

namespace Enumerant.Header

open Text

variable {fresh : Bool} {c : Char} {cs rest : List Char} {p : Piece}

/-! ### Runs -/

/-- A run of characters of a kind ends where no such character follows. -/
def EndsRun (kind : Char → Bool) (rest : List Char) : Prop :=
  ∀ d ∈ rest.head?, kind d = false

/-- A text has one run of a kind in front. -/
theorem run_unique {kind : Char → Bool} {w w' rest' : List Char} (hw : ∀ d ∈ w, kind d)
    (hw' : ∀ d ∈ w', kind d) (hrest : EndsRun kind rest) (hrest' : EndsRun kind rest')
    (h : w ++ rest = w' ++ rest') : w = w' ∧ rest = rest' := by
  have heq : w = w' := by
    rw [← takeWhile_append_eq hw hrest, h, takeWhile_append_eq hw' hrest']
  subst heq
  exact ⟨rfl, List.append_cancel_left h⟩

theorem forall_of_length_takeWhile {kind : Char → Bool}
    (h : ((cs ++ rest).takeWhile kind).length = cs.length) :
    (∀ d ∈ cs, kind d) ∧ EndsRun kind rest := by
  induction cs with
  | nil =>
    refine ⟨fun d hd => absurd hd List.not_mem_nil, fun d hd => ?_⟩
    cases rest with
    | nil => exact absurd hd (Option.not_mem_none d)
    | cons e rest =>
      cases hd
      by_contra hk
      simp [Bool.not_eq_false _ ▸ hk] at h
  | cons c cs ih =>
    rw [List.cons_append, List.takeWhile_cons] at h
    split at h
    case isTrue hc =>
      obtain ⟨hcs, hrest⟩ := ih (by simpa using h)
      exact ⟨List.forall_mem_cons.mpr ⟨hc, hcs⟩, hrest⟩
    case isFalse => simp at h

/-! ### Forms -/

/-- The characters of a punctuation. -/
def Punctuation.text : Punctuation → List Char
  | openBrace => ['{']
  | closeBrace => ['}']
  | openParen => ['(']
  | closeParen => [')']
  | semicolon => [';']
  | comma => [',']
  | colon => [':']
  | assign => ['=']
  | plus => ['+']
  | minus => ['-']
  | star => ['*']
  | slash => ['/']
  | percent => ['%']
  | tilde => ['~']
  | bar => ['|']
  | ampersand => ['&']
  | caret => ['^']
  | shiftLeft => ['<', '<']
  | shiftRight => ['>', '>']

theorem Punctuation.text_of_ofChar? {p : Punctuation} (h : ofChar? c = some p) : p.text = [c] := by
  unfold ofChar? at h
  split at h <;> cases h <;> rfl

/-- The piece that a text begins with, given what follows the piece. -/
inductive Form (fresh : Bool) (rest : List Char) : Piece → Prop
  | blank {c : Char} (hc : isSpace c) : Form fresh rest ⟨.blank, [c]⟩
  | directive {cs : List Char} (hfresh : fresh = true)
      (hcs : directiveExtent (cs ++ rest) = cs.length) : Form fresh rest ⟨.directive, '#' :: cs⟩
  | remark {cs : List Char} (hcs : ∀ d ∈ cs, d != '\n') (hrest : EndsRun (· != '\n') rest) :
      Form fresh rest ⟨.token (.remark (String.ofList (trim cs))), '/' :: '/' :: cs⟩
  | comment {cs : List Char} (hcs : commentExtent (cs ++ rest) = cs.length) :
      Form fresh rest ⟨.comment, '/' :: '*' :: cs⟩
  | quoted {c : Char} {cs : List Char} (hc : c.toNat = 0x22 ∨ c.toNat = 0x27)
      (hcs : quotedExtent c (cs ++ rest) = cs.length) : Form fresh rest ⟨.quoted, c :: cs⟩
  | number {c : Char} {cs : List Char} (hc : c.isDigit) (hcs : ∀ d ∈ cs, d.isAlphanum)
      (hrest : EndsRun Char.isAlphanum rest) :
      Form fresh rest ⟨.token (numberLexeme (c :: cs)), c :: cs⟩
  | word {c : Char} {cs : List Char} (hc : isWordStart c) (hcs : ∀ d ∈ cs, isWordChar d)
      (hrest : EndsRun isWordChar rest) :
      Form fresh rest ⟨.token (.word (String.ofList (c :: cs))), c :: cs⟩
  | mark {p : Punctuation}
      (hslash : p = .slash → rest.head? ≠ some '/' ∧ rest.head? ≠ some '*') :
      Form fresh rest ⟨.token (.mark p), p.text⟩
  | strays {c : Char} (hc : Piece.StandsAlone fresh c) (hp : Punctuation.ofChar? c = none)
      (hrest : c = '<' ∨ c = '>' → rest.head? ≠ some c) : Form fresh rest ⟨.strays, [c]⟩

namespace Piece

theorem standsAlone_of_ofChar? {p : Punctuation} (h : Punctuation.ofChar? c = some p)
    (hc : c ≠ '/') : StandsAlone fresh c := by
  unfold Punctuation.ofChar? at h
  split at h
  case h_12 => exact absurd rfl hc
  case h_18 => cases h
  all_goals exact ⟨by decide, by simp, by decide, by decide, by decide, by decide⟩

theorem begins_mark {p : Punctuation}
    (hslash : p = .slash → rest.head? ≠ some '/' ∧ rest.head? ≠ some '*') :
    Begins fresh ⟨.token (.mark p), p.text⟩ rest := by
  cases p with
  | slash => exact ⟨'/', [], rfl, by simp [classify_slash, hslash rfl]⟩
  | shiftLeft =>
    have hc : StandsAlone fresh '<' :=
      ⟨by decide, by simp, by decide, by decide, by decide, by decide⟩
    exact ⟨'<', ['<'], rfl, by simp [classify_of_standsAlone hc]⟩
  | shiftRight =>
    have hc : StandsAlone fresh '>' :=
      ⟨by decide, by simp, by decide, by decide, by decide, by decide⟩
    exact ⟨'>', ['>'], rfl, by simp [classify_of_standsAlone hc]⟩
  | _ =>
    refine ⟨_, [], rfl, ?_⟩
    rw [classify_of_standsAlone (standsAlone_of_ofChar? rfl (by decide))]
    rfl

theorem form_of_slash {kind : Kind} (h : classify fresh '/' (cs ++ rest) = (kind, cs.length)) :
    Form fresh rest ⟨kind, '/' :: cs⟩ := by
  rw [classify_slash] at h
  rcases cs with - | ⟨d, cs⟩
  · by_cases h₁ : rest.head? = some '/'
    · simp [h₁] at h
    by_cases h₂ : rest.head? = some '*'
    · simp [h₂] at h
    · simp only [List.nil_append, h₁, h₂, if_false, Prod.mk.injEq] at h
      obtain ⟨rfl, -⟩ := h
      exact .mark fun _ => ⟨h₁, h₂⟩
  · simp only [List.cons_append, List.head?_cons, List.tail_cons, List.length_cons,
      Option.some.injEq] at h
    by_cases h₁ : d = '/'
    · subst h₁
      simp only [if_true, Prod.mk.injEq, Nat.add_right_cancel_iff] at h
      obtain ⟨rfl, hlen⟩ := h
      obtain ⟨hcs, hrest⟩ := forall_of_length_takeWhile hlen
      rw [takeWhile_append_eq hcs hrest]
      exact .remark hcs hrest
    -- Any other character behind the slash is left to the next piece, so there is none.
    by_cases h₂ : d = '*'
    · subst h₂
      simp only [Char.reduceEq, if_true, if_false, Prod.mk.injEq, Nat.add_right_cancel_iff] at h
      obtain ⟨rfl, hlen⟩ := h
      exact .comment hlen
    · simp [h₁, h₂] at h

theorem form_of_standsAlone {kind : Kind} (hc : StandsAlone fresh c)
    (h : classify fresh c (cs ++ rest) = (kind, cs.length)) :
    Form fresh rest ⟨kind, c :: cs⟩ := by
  rw [classify_of_standsAlone hc] at h
  by_cases h₁ : c = '<' ∧ (cs ++ rest).head? = some '<'
  · rw [if_pos h₁, Prod.mk.injEq] at h
    obtain ⟨rfl, hlen⟩ := h
    obtain ⟨d, rfl⟩ := List.length_eq_one_iff.mp hlen.symm
    obtain ⟨rfl, hd⟩ := h₁
    cases hd
    exact .mark (p := .shiftLeft) nofun
  by_cases h₂ : c = '>' ∧ (cs ++ rest).head? = some '>'
  · rw [if_neg h₁, if_pos h₂, Prod.mk.injEq] at h
    obtain ⟨rfl, hlen⟩ := h
    obtain ⟨d, rfl⟩ := List.length_eq_one_iff.mp hlen.symm
    obtain ⟨rfl, hd⟩ := h₂
    cases hd
    exact .mark (p := .shiftRight) nofun
  rw [if_neg h₁, if_neg h₂] at h
  split at h
  case h_1 p hp =>
    rw [Prod.mk.injEq] at h
    obtain ⟨rfl, hlen⟩ := h
    obtain rfl := List.eq_nil_of_length_eq_zero hlen.symm
    rw [← Punctuation.text_of_ofChar? hp]
    refine .mark ?_
    rintro rfl
    cases Punctuation.text_of_ofChar? hp
    exact absurd rfl hc.not_slash
  case h_2 hp =>
    rw [Prod.mk.injEq] at h
    obtain ⟨rfl, hlen⟩ := h
    obtain rfl := List.eq_nil_of_length_eq_zero hlen.symm
    -- A stray angle bracket would be a shift with another one behind it.
    refine .strays hc hp ?_
    rintro (rfl | rfl) hrest
    · exact h₁ ⟨rfl, hrest⟩
    · exact h₂ ⟨rfl, hrest⟩

theorem Begins.form (h : Begins fresh p rest) : Form fresh rest p := by
  obtain ⟨kind, text⟩ := p
  obtain ⟨c, cs, rfl, h⟩ := h
  dsimp only at h
  rcases form_cases fresh c with hc | ⟨rfl, rfl⟩ | rfl | hc | hc | hc | hc
  · rw [classify_space hc, Prod.mk.injEq] at h
    obtain ⟨rfl, hlen⟩ := h
    obtain rfl := List.eq_nil_of_length_eq_zero hlen.symm
    exact .blank hc
  · rw [classify_hash, Prod.mk.injEq] at h
    obtain ⟨rfl, hlen⟩ := h
    exact .directive rfl hlen
  · exact form_of_slash h
  · rw [classify_quote hc, Prod.mk.injEq] at h
    obtain ⟨rfl, hlen⟩ := h
    exact .quoted hc hlen
  · rw [classify_digit hc, Prod.mk.injEq] at h
    obtain ⟨rfl, hlen⟩ := h
    obtain ⟨hcs, hrest⟩ := forall_of_length_takeWhile hlen
    rw [takeWhile_append_eq hcs hrest]
    exact .number hc hcs hrest
  · rw [classify_word hc, Prod.mk.injEq] at h
    obtain ⟨rfl, hlen⟩ := h
    obtain ⟨hcs, hrest⟩ := forall_of_length_takeWhile hlen
    rw [takeWhile_append_eq hcs hrest]
    exact .word hc hcs hrest
  · exact form_of_standsAlone hc h

theorem Begins.of_form (h : Form fresh rest p) : Begins fresh p rest := by
  cases h with
  | blank hc => exact ⟨_, [], rfl, classify_space hc⟩
  | directive hfresh hcs =>
    subst hfresh
    exact ⟨_, _, rfl, by rw [classify_hash, hcs]⟩
  | remark hcs hrest =>
    refine ⟨_, _, rfl, ?_⟩
    simp [classify_slash, takeWhile_append_eq hcs hrest]
  | comment hcs =>
    refine ⟨_, _, rfl, ?_⟩
    simp [classify_slash, hcs]
  | quoted hc hcs => exact ⟨_, _, rfl, by rw [classify_quote hc, hcs]⟩
  | number hc hcs hrest =>
    exact ⟨_, _, rfl, by rw [classify_digit hc, takeWhile_append_eq hcs hrest]⟩
  | word hc hcs hrest =>
    exact ⟨_, _, rfl, by rw [classify_word hc, takeWhile_append_eq hcs hrest]⟩
  | mark hslash => exact begins_mark hslash
  | strays hc hp hrest =>
    refine ⟨_, [], rfl, ?_⟩
    rw [classify_of_standsAlone hc, hp, if_neg, if_neg, List.length_nil]
    · rintro ⟨rfl, h⟩
      exact hrest (.inr rfl) h
    · rintro ⟨rfl, h⟩
      exact hrest (.inl rfl) h

theorem begins_iff_form : Begins fresh p rest ↔ Form fresh rest p :=
  ⟨Begins.form, Begins.of_form⟩

/-- The form of a piece among others. -/
theorem form_of_split {ps qs : List Piece} (h : split fresh cs = ps ++ p :: qs) :
    Form (freshAfter fresh ps) (qs.flatMap Piece.text) p := by
  have hcs : ps.flatMap Piece.text ++ (p :: qs).flatMap Piece.text = cs := by
    rw [← List.flatMap_append, ← h, flatMap_text_split]
  obtain ⟨-, hp⟩ := split_of_append (hcs ▸ h) rfl
  exact (begins_of_split hp).2.1.form

end Piece

end Enumerant.Header
