import Mathlib.Tactic.ByContra
import Mathlib.Tactic.SplitIfs
import Enumerant.Proofs.Header.Division
import Enumerant.Proofs.Text.Code

/-!
# Where a header may be cut

A piece is found by looking at the text behind its first character, but no farther than one
character behind its end (`Piece.classify_append`). A text may therefore be cut between two pieces:
the parts have the pieces that the whole has (`Piece.split_of_append`). When a text goes on, its
pieces stay as they are if the last one does (`Piece.split_append`).
-/

namespace Enumerant.Header

open Text

variable {fresh : Bool} {c : Char} {a b cs bs : List Char}

/-! ### Lexemes of numbers -/

/-- The lexeme of a number is its value, or a stray if it has none. -/
theorem numberLexeme_cases (cs : List Char) :
    (∃ v, numberLexeme cs = .integer v) ∨ ∃ b, numberLexeme cs = .stray b := by
  rw [numberLexeme]
  cases Literal.parse? cs with
  | some v => exact .inl ⟨v, rfl⟩
  | none => exact .inr ⟨_, rfl⟩

/-- Whatever a number is, it is no punctuation. -/
theorem numberLexeme_ne_mark (cs : List Char) (m : Punctuation) : numberLexeme cs ≠ .mark m := by
  rcases numberLexeme_cases cs with ⟨v, h⟩ | ⟨b, h⟩ <;> simp [h]

theorem numberLexeme_ne_word (cs : List Char) (name : String) : numberLexeme cs ≠ .word name := by
  rcases numberLexeme_cases cs with ⟨v, h⟩ | ⟨b, h⟩ <;> simp [h]

theorem numberLexeme_ne_remark (cs : List Char) (text : String) :
    numberLexeme cs ≠ .remark text := by
  rcases numberLexeme_cases cs with ⟨v, h⟩ | ⟨b, h⟩ <;> simp [h]

/-! ### Extents -/

/-- A directive goes on over a line break behind a backslash. -/
theorem directiveExtent_cons (c : Char) (cs : List Char) :
    directiveExtent (c :: cs) =
      if c = '\\' ∧ cs.head? = some '\n' then directiveExtent cs.tail + 2
      else if c = '\n' then 0 else directiveExtent cs + 1 := by
  rcases cs with - | ⟨d, cs⟩
  · simp [directiveExtent]
  · by_cases hc : c = '\\'
    · by_cases hd : d = '\n' <;> simp [directiveExtent, hc, hd]
    · simp [directiveExtent, hc]

/-- A comment ends behind its first asterisk with a slash. -/
theorem commentExtent_cons (c : Char) (cs : List Char) :
    commentExtent (c :: cs) =
      if c = '*' ∧ cs.head? = some '/' then 2 else commentExtent cs + 1 := by
  rcases cs with - | ⟨d, cs⟩
  · simp [commentExtent]
  · by_cases hc : c = '*'
    · by_cases hd : d = '/' <;> simp [commentExtent, hc, hd]
    · simp [commentExtent, hc]

/-- A backslash in a quoted text takes the next character along, and a line break ends the text. -/
theorem quotedExtent_cons (quote c : Char) (cs : List Char) :
    quotedExtent quote (c :: cs) =
      if c = '\\' ∧ cs ≠ [] then quotedExtent quote cs.tail + 2
      else if c = quote ∨ c = '\n' then 1 else quotedExtent quote cs + 1 := by
  rcases cs with - | ⟨d, cs⟩
  · simp [quotedExtent]
  · by_cases hc : c = '\\' <;> simp [quotedExtent, hc]

theorem quotedExtent_escape (quote d : Char) (cs : List Char) :
    quotedExtent quote ('\\' :: d :: cs) = quotedExtent quote cs + 2 := by
  rw [quotedExtent_cons, if_pos ⟨rfl, List.cons_ne_nil d cs⟩, List.tail_cons]

theorem quotedExtent_cons_of_ne {quote : Char} (hc : c ≠ '\\') (cs : List Char) :
    quotedExtent quote (c :: cs) =
      if c = quote ∨ c = '\n' then 1 else quotedExtent quote cs + 1 := by
  rw [quotedExtent_cons, if_neg fun h => hc h.1]

/-- A quoted text takes something along if there is anything. -/
theorem quotedExtent_pos {quote : Char} (h : cs ≠ []) : 0 < quotedExtent quote cs := by
  obtain ⟨c, cs, rfl⟩ := List.exists_cons_of_ne_nil h
  rw [quotedExtent_cons]
  split_ifs <;> omega

theorem eq_nil_of_quotedExtent_eq_zero {quote : Char} (h : quotedExtent quote cs = 0) :
    cs = [] := by
  by_contra hne
  exact absurd h (Nat.ne_of_gt (quotedExtent_pos hne))

/-- A piece ends within the text. -/
theorem directiveExtent_le (cs : List Char) : directiveExtent cs ≤ cs.length := by
  fun_induction directiveExtent cs <;> grind

theorem commentExtent_le (cs : List Char) : commentExtent cs ≤ cs.length := by
  fun_induction commentExtent cs <;> grind

theorem quotedExtent_le (quote : Char) (cs : List Char) :
    quotedExtent quote cs ≤ cs.length := by
  fun_induction quotedExtent quote cs <;> grind

/-- A way to measure the front of a text does not look behind the end of what it measures: what
follows changes nothing, unless all of the text is measured, and more. -/
def IsLocal (extent : List Char → Nat) : Prop :=
  ∀ cs bs, extent cs < cs.length ∨ extent (cs ++ bs) ≤ cs.length → extent (cs ++ bs) = extent cs

/-- Where a directive ends does not depend on what follows. -/
theorem isLocal_directiveExtent : IsLocal directiveExtent
  | [], bs, h => by simpa [directiveExtent] using h
  | [c], bs, h => by
    have ih := isLocal_directiveExtent [] bs
    simp only [List.singleton_append, directiveExtent_cons, List.length_singleton] at h ⊢
    simp only [List.nil_append, List.length_nil] at ih
    grind [directiveExtent]
  | c :: d :: cs, bs, h => by
    have ih₁ := isLocal_directiveExtent cs bs
    have ih₂ := isLocal_directiveExtent (d :: cs) bs
    simp only [List.cons_append, directiveExtent_cons c, List.head?_cons, List.tail_cons,
      List.length_cons] at h ih₂ ⊢
    grind

/-- Where a comment ends does not depend on what follows. -/
theorem isLocal_commentExtent : IsLocal commentExtent
  | [], bs, h => by simpa [commentExtent] using h
  | [c], bs, h => by
    have ih := isLocal_commentExtent [] bs
    simp only [List.singleton_append, commentExtent_cons, List.length_singleton] at h ⊢
    simp only [List.nil_append, List.length_nil] at ih
    grind [commentExtent]
  | c :: d :: cs, bs, h => by
    have ih := isLocal_commentExtent (d :: cs) bs
    simp only [List.cons_append, commentExtent_cons c, List.head?_cons, List.length_cons] at h ih ⊢
    grind

/-- Where a quoted text ends does not depend on what follows. -/
theorem isLocal_quotedExtent (quote : Char) : IsLocal (quotedExtent quote)
  | [], bs, h => by simpa [quotedExtent] using h
  | [c], bs, h => by
    have ih := isLocal_quotedExtent quote [] bs
    simp only [List.singleton_append, quotedExtent_cons, List.length_singleton] at h ⊢
    simp only [List.nil_append, List.length_nil] at ih
    grind [quotedExtent]
  | c :: d :: cs, bs, h => by
    have ih₁ := isLocal_quotedExtent quote cs bs
    have ih₂ := isLocal_quotedExtent quote (d :: cs) bs
    simp only [List.cons_append, quotedExtent_cons quote c, List.tail_cons,
      List.length_cons] at h ih₂ ⊢
    grind

/-- A run that ends within a text ends there whatever follows. -/
theorem takeWhile_append_of_local (p : Char → Bool)
    (h : (cs.takeWhile p).length < cs.length ∨ ((cs ++ bs).takeWhile p).length ≤ cs.length) :
    (cs ++ bs).takeWhile p = cs.takeWhile p := by
  induction cs with
  | nil => simpa using h
  | cons c cs ih =>
    simp only [List.cons_append, List.takeWhile_cons] at h ⊢
    split
    · rw [ih (by simp_all)]
    · rfl

/-! ### What a character begins -/

namespace Piece

/-- Blanks are pieces of their own. -/
theorem classify_space (h : isSpace c) : classify fresh c cs = (.blank, 0) := by
  simp [classify, h]

/-- On a fresh line a hash opens a directive. -/
theorem classify_hash : classify true '#' cs = (.directive, directiveExtent cs) := by
  simp [classify, isSpace]

/-- A slash opens a comment of either kind, or stands for itself. -/
theorem classify_slash :
    classify fresh '/' cs =
      if cs.head? = some '/' then
        (.token (.remark (String.ofList (trim (cs.tail.takeWhile (· != '\n'))))),
          (cs.tail.takeWhile (· != '\n')).length + 1)
      else if cs.head? = some '*' then (.comment, commentExtent cs.tail + 1)
      else (.token (.mark .slash), 0) := by
  simp [classify, isSpace, isWordStart, Punctuation.ofChar?]

/-- Quotes of both kinds open quoted texts. -/
theorem classify_quote (h : c.toNat = 0x22 ∨ c.toNat = 0x27) :
    classify fresh c cs = (.quoted, quotedExtent c cs) := by
  have hspace : ¬ isSpace c := by
    rw [isSpace_iff]
    omega
  have hne : ∀ d : Char, d.toNat ≠ 0x22 ∧ d.toNat ≠ 0x27 → c ≠ d := by
    rintro d hd rfl
    omega
  rw [classify, if_neg hspace, if_neg (fun hc => hne '#' (by decide) hc.1),
    if_neg (fun hc => hne '/' (by decide) hc.1), if_neg (fun hc => hne '/' (by decide) hc.1),
    if_pos h]

/-- A digit opens a number, which letters may be part of. -/
theorem classify_digit (h : c.isDigit) :
    classify fresh c cs =
      (.token (numberLexeme (c :: cs.takeWhile Char.isAlphanum)),
        (cs.takeWhile Char.isAlphanum).length) := by
  have hcode := isDigit_iff.mp h
  have hspace : ¬ isSpace c := by
    rw [isSpace_iff]
    omega
  have hne : ∀ d : Char, d.toNat < 48 → c ≠ d := by
    rintro d hd rfl
    omega
  rw [classify, if_neg hspace, if_neg (fun hc => hne '#' (by decide) hc.1),
    if_neg (fun hc => hne '/' (by decide) hc.1), if_neg (fun hc => hne '/' (by decide) hc.1),
    if_neg (by omega), if_pos h]

/-- A letter or an underscore opens a word. -/
theorem classify_word (h : isWordStart c) :
    classify fresh c cs =
      (.token (.word (String.ofList (c :: cs.takeWhile isWordChar))),
        (cs.takeWhile isWordChar).length) := by
  have hcode := isWordStart_iff.mp h
  have hspace : ¬ isSpace c := by
    rw [isSpace_iff]
    omega
  have hdigit : ¬ c.isDigit := by
    rw [isDigit_iff]
    omega
  have hne : ∀ d : Char, d.toNat < 48 → c ≠ d := by
    rintro d hd rfl
    omega
  rw [classify, if_neg hspace, if_neg (fun hc => hne '#' (by decide) hc.1),
    if_neg (fun hc => hne '/' (by decide) hc.1), if_neg (fun hc => hne '/' (by decide) hc.1),
    if_neg (by omega), if_neg hdigit, if_pos h]

/-- A character that is not the first of anything longer. -/
structure StandsAlone (fresh : Bool) (c : Char) : Prop where
  not_space : ¬ isSpace c
  not_hash : ¬ (c = '#' ∧ fresh)
  not_slash : c ≠ '/'
  not_quote : ¬ (c.toNat = 0x22 ∨ c.toNat = 0x27)
  not_digit : ¬ c.isDigit
  not_word : ¬ isWordStart c

/-- Shifts take two characters, and everything else one. -/
theorem classify_of_standsAlone (h : StandsAlone fresh c) :
    classify fresh c cs =
      if c = '<' ∧ cs.head? = some '<' then (.token (.mark .shiftLeft), 1)
      else if c = '>' ∧ cs.head? = some '>' then (.token (.mark .shiftRight), 1)
      else
        match Punctuation.ofChar? c with
        | some p => (.token (.mark p), 0)
        | none => (.strays, 0) := by
  obtain ⟨h₁, h₂, h₃, h₄, h₅, h₆⟩ := h
  have hfirst : classify fresh c cs = _ :=
    (if_neg h₁).trans ((if_neg h₂).trans ((if_neg fun hc => h₃ hc.1).trans
      ((if_neg fun hc => h₃ hc.1).trans ((if_neg h₄).trans ((if_neg h₅).trans (if_neg h₆))))))
  exact hfirst

/-- What a character begins depends on what it is. -/
theorem form_cases (fresh : Bool) (c : Char) :
    isSpace c ∨ (c = '#' ∧ fresh) ∨ c = '/' ∨ (c.toNat = 0x22 ∨ c.toNat = 0x27) ∨ c.isDigit ∨
      isWordStart c ∨ StandsAlone fresh c := by
  by_contra h
  simp only [not_or] at h
  obtain ⟨h₁, h₂, h₃, h₄, h₅, h₆, h₇⟩ := h
  exact h₇ ⟨h₁, h₂, h₃, by omega, h₅, h₆⟩

/-- What follows a text does not change what it begins with, unless that goes on to its end. -/
theorem classify_append (h : (classify fresh c cs).2 < cs.length ∨
    (classify fresh c (cs ++ bs)).2 ≤ cs.length) :
    classify fresh c (cs ++ bs) = classify fresh c cs := by
  rcases form_cases fresh c with hc | ⟨rfl, rfl⟩ | rfl | hc | hc | hc | hc
  · rw [classify_space hc, classify_space hc]
  · rw [classify_hash, classify_hash] at h ⊢
    rw [isLocal_directiveExtent cs bs h]
  · rw [classify_slash, classify_slash] at h ⊢
    rcases cs with - | ⟨d, cs⟩
    · simp only [List.nil_append, List.head?_nil, List.length_nil] at h ⊢
      split_ifs at h ⊢ <;> simp_all
    · simp only [List.cons_append, List.head?_cons, List.tail_cons, List.length_cons] at h ⊢
      by_cases hd : d = '/'
      · simp only [hd, if_true, Nat.add_lt_add_iff_right, Nat.add_le_add_iff_right] at h ⊢
        rw [takeWhile_append_of_local _ h]
      by_cases hd' : d = '*'
      · simp only [hd', Option.some.injEq, Char.reduceEq, if_true, if_false,
          Nat.add_lt_add_iff_right, Nat.add_le_add_iff_right] at h ⊢
        rw [isLocal_commentExtent cs bs h]
      · simp only [Option.some.injEq, hd, hd', if_false]
  · rw [classify_quote hc, classify_quote hc] at h ⊢
    rw [isLocal_quotedExtent c cs bs h]
  · rw [classify_digit hc, classify_digit hc] at h ⊢
    rw [takeWhile_append_of_local _ h]
  · rw [classify_word hc, classify_word hc] at h ⊢
    rw [takeWhile_append_of_local _ h]
  · rw [classify_of_standsAlone hc, classify_of_standsAlone hc] at h ⊢
    rcases cs with - | ⟨d, cs⟩
    · simp only [List.nil_append, List.head?_nil, List.length_nil] at h ⊢
      split_ifs at h ⊢ <;> simp_all
    · rfl

/-! ### Pieces one after another -/

/-- A piece is no longer than the text. -/
theorem classify_snd_le (fresh : Bool) (c : Char) (cs : List Char) :
    (classify fresh c cs).2 ≤ cs.length := by
  rcases form_cases fresh c with hc | ⟨rfl, rfl⟩ | rfl | hc | hc | hc | hc
  · simp [classify_space hc]
  · rw [classify_hash]
    exact directiveExtent_le cs
  · rw [classify_slash]
    rcases cs with - | ⟨d, cs⟩
    · simp
    · have hrun := (List.takeWhile_prefix (· != '\n') (l := cs)).length_le
      have hcomment := commentExtent_le cs
      simp only [List.head?_cons, List.tail_cons, List.length_cons, Option.some.injEq]
      by_cases hd : d = '/'
      · simpa [hd] using hrun
      by_cases hd' : d = '*'
      · simpa [hd'] using hcomment
      · simp [hd, hd']
  · rw [classify_quote hc]
    exact quotedExtent_le c cs
  · rw [classify_digit hc]
    exact (List.takeWhile_prefix _).length_le
  · rw [classify_word hc]
    exact (List.takeWhile_prefix _).length_le
  · rw [classify_of_standsAlone hc]
    rcases cs with - | ⟨d, cs⟩
    · simp only [List.head?_nil, reduceCtorEq, and_false, if_false]
      split <;> simp
    · split_ifs <;> (try split) <;> simp

@[simp]
theorem split_nil (fresh : Bool) : split fresh [] = [] := by
  rw [split]

/-- A text begins with a piece, given what follows the piece. -/
def Begins (fresh : Bool) (p : Piece) (rest : List Char) : Prop :=
  ∃ c cs, p.text = c :: cs ∧ classify fresh c (cs ++ rest) = (p.kind, cs.length)

/-- A text that begins with a piece is divided there. -/
theorem split_of_begins {p : Piece} {rest : List Char} (h : Begins fresh p rest) :
    split fresh (p.text ++ rest) = p :: split (p.leavesFresh fresh) rest := by
  obtain ⟨c, cs, htext, hc⟩ := h
  obtain ⟨kind, text⟩ := p
  dsimp only at htext hc
  subst htext
  rw [List.cons_append, split, hc]
  simp

/-- The first piece of a division begins the text, and the others divide what follows. -/
theorem begins_of_split {p : Piece} {ps : List Piece} (h : split fresh a = p :: ps) :
    a = p.text ++ ps.flatMap Piece.text ∧ Begins fresh p (ps.flatMap Piece.text) ∧
      split (p.leavesFresh fresh) (ps.flatMap Piece.text) = ps := by
  rcases a with - | ⟨c, cs⟩
  · rw [split_nil] at h
    cases h
  · have hle := classify_snd_le fresh c cs
    rw [split] at h
    rcases hc : classify fresh c cs with ⟨kind, more⟩
    rw [hc] at h hle
    dsimp only at h hle
    obtain ⟨rfl, hps⟩ := List.cons.inj h
    have hrest : ps.flatMap Piece.text = cs.drop more := by
      rw [← hps, flatMap_text_split]
    refine ⟨by simp [hrest], ⟨c, _, rfl, ?_⟩, hrest ▸ hps⟩
    rw [hrest, List.take_append_drop, List.length_take_of_le hle, hc]

/-- No piece is empty. -/
theorem text_ne_nil_of_mem_split {p : Piece} (h : p ∈ split fresh cs) : p.text ≠ [] := by
  fun_induction split fresh cs with
  | case1 => exact absurd h List.not_mem_nil
  | case2 fresh c cs kind more hc piece ih =>
    rcases List.mem_cons.mp h with rfl | h
    · exact List.cons_ne_nil _ _
    · exact ih h

/-- Whether a line holds nothing but blanks and directives after some pieces, if it did before. -/
def freshAfter (fresh : Bool) (ps : List Piece) : Bool :=
  ps.foldl (fun fresh p => p.leavesFresh fresh) fresh

/-- A text cut between two pieces has the pieces of the whole. -/
theorem split_of_append {ps qs : List Piece} (h : split fresh (a ++ b) = ps ++ qs)
    (ha : ps.flatMap Piece.text = a) :
    split fresh a = ps ∧ split (freshAfter fresh ps) b = qs := by
  induction ps generalizing fresh a with
  | nil =>
    subst ha
    exact ⟨split_nil fresh, h⟩
  | cons p ps ih =>
    subst ha
    rw [List.cons_append] at h
    obtain ⟨htext, ⟨c, cs, hp, hc⟩, hrest⟩ := begins_of_split h
    have hb : (ps ++ qs).flatMap Piece.text = ps.flatMap Piece.text ++ b := by
      rw [List.flatMap_cons, List.append_assoc] at htext
      exact (List.append_cancel_left htext).symm
    rw [hb] at hc hrest
    obtain ⟨hps, hqs⟩ := ih hrest rfl
    refine ⟨?_, hqs⟩
    rw [← List.append_assoc] at hc
    have hcut : classify fresh c (cs ++ ps.flatMap Piece.text) = (p.kind, cs.length) := by
      rw [← hc]
      exact (classify_append (.inr (by rw [hc, List.length_append]; omega))).symm
    rw [List.flatMap_cons, split_of_begins ⟨c, cs, hp, hcut⟩, hps]

/-- All pieces but the last one stay as they are when the text goes on. -/
theorem split_append_last {p : Piece} {ps : List Piece} (h : split fresh a = ps ++ [p])
    (b : List Char) :
    split fresh (a ++ b) = ps ++ split (freshAfter fresh ps) (p.text ++ b) := by
  induction ps generalizing fresh a with
  | nil =>
    obtain ⟨rfl, -, -⟩ := begins_of_split h
    rw [List.flatMap_nil, List.append_nil]
    rfl
  | cons q ps ih =>
    rw [List.cons_append] at h
    obtain ⟨rfl, ⟨c, cs, hq, hc⟩, hrest⟩ := begins_of_split h
    -- A piece that others follow ends before the text does, so it ends there in a longer one.
    have hlt : cs.length < (cs ++ (ps ++ [p]).flatMap Piece.text).length := by
      have hp : p ∈ split (q.leavesFresh fresh) ((ps ++ [p]).flatMap Piece.text) := by
        rw [hrest]
        exact List.mem_append_right ps (List.mem_singleton_self p)
      have hpos := List.length_pos_iff.mpr (text_ne_nil_of_mem_split hp)
      simp only [List.flatMap_append, List.flatMap_singleton, List.length_append]
      omega
    have hmore : Begins fresh q ((ps ++ [p]).flatMap Piece.text ++ b) := by
      refine ⟨c, cs, hq, ?_⟩
      rw [← List.append_assoc, ← hc]
      exact classify_append (.inl (by rw [hc]; exact hlt))
    rw [List.append_assoc, split_of_begins hmore, ih hrest]
    rfl

/-- Pieces stay as they are when the text goes on, if the last one does. -/
theorem split_append {p : Piece} {ps : List Piece} (h : split fresh a = ps ++ [p])
    (hp : Begins (freshAfter fresh ps) p b) :
    split fresh (a ++ b) = ps ++ p :: split (freshAfter fresh (ps ++ [p])) b := by
  have hfresh : freshAfter fresh (ps ++ [p]) = p.leavesFresh (freshAfter fresh ps) :=
    List.foldl_append
  rw [split_append_last h, split_of_begins hp, hfresh]

end Piece

end Enumerant.Header
