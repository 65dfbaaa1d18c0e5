import Enumerant.Proofs.Header.Form
import Enumerant.Proofs.Header.Position

/-!
# Texts without comments

A text is spelled out by lexemes if it consists of them and of blanks (`Spelled`). A comment or a
directive counts as a blank, as it does in C: `cleared` replaces them by one space. The pieces of a
text tell what it says then: `spelled_iff` shows that the lexemes of the pieces are the only ones
that may spell the cleared text, and that they do if there are neither quoted texts nor strays.
-/

namespace Enumerant.Header

variable {fresh : Bool} {c : Char} {cs rest source : List Char} {ls : List Lexeme} {ps : List Piece}
  {p : Piece}

/-! ### Spelling -/

/-- A text consists of blanks and of the lexemes given. Words and numbers are as long as they can
be. -/
inductive Spelled : List Char → List Lexeme → Prop
  | nil : Spelled [] []
  | blank {c : Char} {cs : List Char} {ls : List Lexeme} (hc : isSpace c) (h : Spelled cs ls) :
      Spelled (c :: cs) ls
  | word {c : Char} {w cs : List Char} {ls : List Lexeme} (hc : isWordStart c)
      (hw : ∀ d ∈ w, isWordChar d) (hcs : EndsRun isWordChar cs) (h : Spelled cs ls) :
      Spelled (c :: (w ++ cs)) (.word (String.ofList (c :: w)) :: ls)
  | integer {c : Char} {w cs : List Char} {v : Int} {ls : List Lexeme} (hc : c.isDigit)
      (hw : ∀ d ∈ w, d.isAlphanum) (hcs : EndsRun Char.isAlphanum cs)
      (hv : Literal.parse? (c :: w) = some v) (h : Spelled cs ls) :
      Spelled (c :: (w ++ cs)) (.integer v :: ls)
  | mark (p : Punctuation) {cs : List Char} {ls : List Lexeme} (h : Spelled cs ls) :
      Spelled (p.text ++ cs) (.mark p :: ls)

/-- What may stand at the front of a spelled text. -/
theorem Spelled.cons_cases (h : Spelled (c :: cs) ls) :
    (isSpace c ∧ Spelled cs ls) ∨
    (∃ w rest ls', isWordStart c ∧ (∀ d ∈ w, isWordChar d) ∧ EndsRun isWordChar rest ∧
      cs = w ++ rest ∧ ls = .word (String.ofList (c :: w)) :: ls' ∧ Spelled rest ls') ∨
    (∃ w rest v ls', c.isDigit ∧ (∀ d ∈ w, d.isAlphanum) ∧ EndsRun Char.isAlphanum rest ∧
      cs = w ++ rest ∧ Literal.parse? (c :: w) = some v ∧ ls = .integer v :: ls' ∧
      Spelled rest ls') ∨
    ∃ p rest ls', p.text ++ rest = c :: cs ∧ ls = .mark p :: ls' ∧ Spelled rest ls' := by
  generalize ht : c :: cs = text at h
  cases h with
  | nil => cases ht
  | blank hc h =>
    cases ht
    exact .inl ⟨hc, h⟩
  | word hc hw hcs h =>
    cases ht
    exact .inr (.inl ⟨_, _, _, hc, hw, hcs, rfl, rfl, h⟩)
  | integer hc hw hcs hv h =>
    cases ht
    exact .inr (.inr (.inl ⟨_, _, _, _, hc, hw, hcs, rfl, hv, rfl, h⟩))
  | mark p h => exact .inr (.inr (.inr ⟨p, _, _, rfl, rfl, h⟩))

/-- The punctuation that begins with a character. -/
def Punctuation.ofHead? (c : Char) : Option Punctuation :=
  if c = '<' then some .shiftLeft else if c = '>' then some .shiftRight else ofChar? c

theorem Punctuation.ofHead?_of_text {p : Punctuation} (h : p.text = c :: cs) :
    ofHead? c = some p := by
  cases p <;> cases h <;> rfl

/-- The first characters of punctuations begin nothing else. -/
theorem Punctuation.code_of_text {p : Punctuation} (h : p.text = c :: cs) :
    isSpace c = false ∧ isWordStart c = false ∧ c.isDigit = false ∧
      c.toNat ≠ 0x22 ∧ c.toNat ≠ 0x27 := by
  cases p <;> cases h <;> decide

theorem Punctuation.exists_text (p : Punctuation) : ∃ c cs, p.text = c :: cs := by
  cases p <;> exact ⟨_, _, rfl⟩

namespace Spelled

/-- A character of no punctuation begins none. -/
theorem not_mark {p : Punctuation} (h : p.text ++ rest = c :: cs)
    (hc : isSpace c ∨ isWordStart c ∨ c.isDigit ∨ c.toNat = 0x22 ∨ c.toNat = 0x27) : False := by
  obtain ⟨d, ds, hp⟩ := p.exists_text
  obtain ⟨h₁, h₂, h₃, h₄, h₅⟩ := Punctuation.code_of_text hp
  rw [hp] at h
  obtain ⟨rfl, -⟩ := List.cons.inj h
  simp_all

theorem of_blank (hc : isSpace c) (h : Spelled (c :: cs) ls) : Spelled cs ls := by
  have hcode := isSpace_iff.mp hc
  rcases h.cons_cases with ⟨-, h⟩ | ⟨w, rest, ls', hw, -⟩ | ⟨w, rest, v, ls', hd, -⟩ |
    ⟨p, rest, ls', hp, -⟩
  · exact h
  · rw [isWordStart_iff] at hw
    omega
  · rw [Text.isDigit_iff] at hd
    omega
  · exact (not_mark hp (.inl hc)).elim

theorem blank_iff (hc : isSpace c) : Spelled (c :: cs) ls ↔ Spelled cs ls :=
  ⟨of_blank hc, blank hc⟩

theorem nil_iff : Spelled [] ls ↔ ls = [] := by
  constructor
  · intro h
    generalize ht : [] = text at h
    cases h with
    | nil => rfl
    | mark p h =>
      obtain ⟨c, cs, hp⟩ := p.exists_text
      rw [hp] at ht
      cases ht
    | blank | word | integer => cases ht
  · rintro rfl
    exact nil

/-- A word at the front of a spelled text is spelled as it is. -/
theorem word_iff {w : List Char} (hc : isWordStart c) (hw : ∀ d ∈ w, isWordChar d)
    (hcs : EndsRun isWordChar cs) :
    Spelled (c :: (w ++ cs)) ls ↔
      ∃ ls', ls = .word (String.ofList (c :: w)) :: ls' ∧ Spelled cs ls' := by
  refine ⟨fun h => ?_, fun ⟨ls', hls, h⟩ => hls ▸ word hc hw hcs h⟩
  have hcode := isWordStart_iff.mp hc
  rcases h.cons_cases with ⟨hs, -⟩ | ⟨w', rest, ls', -, hw', hrest, heq, rfl, h⟩ |
    ⟨w', rest, v, ls', hd, -⟩ | ⟨p, rest, ls', hp, -⟩
  · rw [isSpace_iff] at hs
    omega
  · obtain ⟨rfl, rfl⟩ := run_unique hw hw' hcs hrest heq
    exact ⟨ls', rfl, h⟩
  · rw [Text.isDigit_iff] at hd
    omega
  · exact (not_mark hp (.inr (.inl hc))).elim

/-- A number at the front of a spelled text is spelled by its value, so it has one. -/
theorem integer_iff {w : List Char} (hc : c.isDigit) (hw : ∀ d ∈ w, d.isAlphanum)
    (hcs : EndsRun Char.isAlphanum cs) :
    Spelled (c :: (w ++ cs)) ls ↔
      ∃ v ls', Literal.parse? (c :: w) = some v ∧ ls = .integer v :: ls' ∧ Spelled cs ls' := by
  refine ⟨fun h => ?_, fun ⟨v, ls', hv, hls, h⟩ => hls ▸ integer hc hw hcs hv h⟩
  have hcode := Text.isDigit_iff.mp hc
  rcases h.cons_cases with ⟨hs, -⟩ | ⟨w', rest, ls', hw', -⟩ |
    ⟨w', rest, v, ls', -, hw', hrest, heq, hv, rfl, h⟩ | ⟨p, rest, ls', hp, -⟩
  · rw [isSpace_iff] at hs
    omega
  · rw [isWordStart_iff] at hw'
    omega
  · obtain ⟨rfl, rfl⟩ := run_unique hw hw' hcs hrest heq
    exact ⟨v, ls', hv, rfl, h⟩
  · exact (not_mark hp (.inr (.inr (.inl hc)))).elim

theorem mark_iff {p : Punctuation} :
    Spelled (p.text ++ cs) ls ↔ ∃ ls', ls = .mark p :: ls' ∧ Spelled cs ls' := by
  refine ⟨fun h => ?_, fun ⟨ls', hls, h⟩ => hls ▸ mark p h⟩
  obtain ⟨d, ds, hp⟩ := p.exists_text
  obtain ⟨h₁, h₂, h₃, -⟩ := Punctuation.code_of_text hp
  rw [hp, List.cons_append] at h
  rcases h.cons_cases with ⟨hs, -⟩ | ⟨w, rest, ls', hw, -⟩ | ⟨w, rest, v, ls', hd, -⟩ |
    ⟨q, rest, ls', hq, rfl, hrest⟩
  · exact absurd hs (by simp [h₁])
  · exact absurd hw (by simp [h₂])
  · exact absurd hd (by simp [h₃])
  · obtain ⟨e, es, hq'⟩ := q.exists_text
    have hcons := hq
    rw [hq', List.cons_append] at hcons
    obtain ⟨rfl, -⟩ := List.cons.inj hcons
    have hpq : q = p := by
      rw [← Option.some_inj, ← Punctuation.ofHead?_of_text hq', Punctuation.ofHead?_of_text hp]
    subst hpq
    rw [hp, List.cons_append] at hq
    rw [← List.append_cancel_left (List.cons.inj hq).2]
    exact ⟨ls', rfl, hrest⟩

/-- No lexeme begins with a quote. -/
theorem not_quote (hc : c.toNat = 0x22 ∨ c.toNat = 0x27) : ¬ Spelled (c :: cs) ls := by
  intro h
  rcases h.cons_cases with ⟨hs, -⟩ | ⟨w, rest, ls', hw, -⟩ | ⟨w, rest, v, ls', hd, -⟩ |
    ⟨q, rest, ls', hq, -⟩
  · rw [isSpace_iff] at hs
    omega
  · rw [isWordStart_iff] at hw
    omega
  · rw [Text.isDigit_iff] at hd
    omega
  · exact not_mark hq (.inr (.inr (.inr hc)))

/-- No lexeme begins with a stray. -/
theorem not_stray (hc : Piece.StandsAlone fresh c) (hp : Punctuation.ofChar? c = none)
    (hcs : c = '<' ∨ c = '>' → cs.head? ≠ some c) : ¬ Spelled (c :: cs) ls := by
  intro h
  rcases h.cons_cases with ⟨hs, -⟩ | ⟨w, rest, ls', hw, -⟩ | ⟨w, rest, v, ls', hd, -⟩ |
    ⟨q, rest, ls', hq, -⟩
  · exact hc.not_space hs
  · exact hc.not_word hw
  · exact hc.not_digit hd
  · cases q <;> cases hq <;> simp [Punctuation.ofChar?] at hp hcs

end Spelled

/-! ### Cleared texts -/

/-- What is seen of a piece: a comment or a directive is a blank. -/
def Piece.visible (p : Piece) : List Char :=
  match p.kind with
  | .directive | .comment | .token (.remark _) => [' ']
  | _ => p.text

/-- A text inside of a line without its comments and directives. -/
def cleared (source : List Char) : List Char :=
  (Piece.split false source).flatMap Piece.visible

/-- A piece that says what it spells: neither a quoted text nor a stray. -/
def Piece.IsPlain (p : Piece) : Prop :=
  p.kind ≠ .quoted ∧ p.kind ≠ .strays ∧ ∀ b, p.kind ≠ .token (.stray b)

/-- What ends a run in a text ends it in the cleared text. -/
theorem EndsRun.visible {kind : Char → Bool} (h : EndsRun kind (ps.flatMap Piece.text))
    (hps : Piece.split fresh rest = ps) (hblank : kind ' ' = false) :
    EndsRun kind (ps.flatMap Piece.visible) := by
  rcases ps with - | ⟨p, ps⟩
  · exact h
  · obtain ⟨-, ⟨c, cs, hp, -⟩, -⟩ := Piece.begins_of_split hps
    rw [List.flatMap_cons, hp] at h
    rw [List.flatMap_cons]
    unfold Piece.visible
    intro d hd
    split at hd
    · cases hd
      exact hblank
    · cases hd
      exact hblank
    · cases hd
      exact hblank
    · rw [hp] at hd
      exact h d hd

/-- A piece in front of a text that is seen says what its lexeme is. -/
theorem spelled_visible_append {shown : List Char} (hp : Form fresh rest p)
    (hshown : ∀ kind : Char → Bool, kind ' ' = false → EndsRun kind rest → EndsRun kind shown) :
    Spelled (p.visible ++ shown) ls ↔
      p.IsPlain ∧ ∃ ls', ls = p.lexemes.filter Lexeme.isSolid ++ ls' ∧ Spelled shown ls' := by
  cases hp with
  | blank hc => simp [Piece.visible, Piece.IsPlain, Piece.lexemes, Spelled.blank_iff hc]
  | directive hfresh hcs =>
    simp [Piece.visible, Piece.IsPlain, Piece.lexemes, Spelled.blank_iff (c := ' ') rfl]
  | remark hcs hrest =>
    simp [Piece.visible, Piece.IsPlain, Piece.lexemes, Lexeme.isSolid,
      Spelled.blank_iff (c := ' ') rfl]
  | comment hcs =>
    simp [Piece.visible, Piece.IsPlain, Piece.lexemes, Spelled.blank_iff (c := ' ') rfl]
  | quoted hc hcs => simp [Piece.visible, Piece.IsPlain, Spelled.not_quote hc]
  | @number c cs hc hcs hrest =>
    -- What ends a number in the text also ends it where it is seen.
    have hend := hshown Char.isAlphanum (by decide) hrest
    cases hv : Literal.parse? (c :: cs) with
    | some v =>
      simp [Piece.visible, Piece.IsPlain, Piece.lexemes, numberLexeme, List.filter_cons,
        Lexeme.isSolid, hv, Spelled.integer_iff hc hcs hend]
    | none =>
      simp [Piece.visible, Piece.IsPlain, Piece.lexemes, numberLexeme, hv,
        Spelled.integer_iff hc hcs hend]
  | word hc hcs hrest =>
    have hend := hshown isWordChar (by decide) hrest
    simp [Piece.visible, Piece.IsPlain, Piece.lexemes, List.filter_cons, Lexeme.isSolid,
      Spelled.word_iff hc hcs hend]
  | mark hslash =>
    simp [Piece.visible, Piece.IsPlain, Piece.lexemes, List.filter_cons, Lexeme.isSolid,
      Spelled.mark_iff]
  | @strays c hc hp hrest =>
    have hend : c = '<' ∨ c = '>' → shown.head? ≠ some c := by
      intro hlt hhead
      have hne : EndsRun (· == c) rest := by
        intro d hd
        simp only [beq_eq_false_iff_ne]
        rintro rfl
        exact hrest hlt hd
      have := hshown (· == c) (by rcases hlt with rfl | rfl <;> decide) hne c hhead
      simp at this
    simp [Piece.visible, Piece.IsPlain, Spelled.not_stray hc hp hend]

/-- **What a text says.** -/
theorem spelled_iff (hps : Piece.split fresh source = ps) :
    Spelled (ps.flatMap Piece.visible) ls ↔
      (∀ p ∈ ps, p.IsPlain) ∧ ls = (ps.flatMap Piece.lexemes).filter Lexeme.isSolid := by
  induction ps generalizing fresh source ls with
  | nil => simp [Spelled.nil_iff]
  | cons p ps ih =>
    obtain ⟨-, hp, hps⟩ := Piece.begins_of_split hps
    have hshown : ∀ kind : Char → Bool, kind ' ' = false → EndsRun kind (ps.flatMap Piece.text) →
        EndsRun kind (ps.flatMap Piece.visible) := fun kind hblank h => h.visible hps hblank
    rw [List.flatMap_cons, spelled_visible_append hp.form hshown, List.forall_mem_cons,
      List.flatMap_cons, List.filter_append, and_assoc]
    refine and_congr_right fun _ => ?_
    constructor
    · rintro ⟨ls', rfl, h⟩
      obtain ⟨hplain, rfl⟩ := (ih hps).mp h
      exact ⟨hplain, rfl⟩
    · rintro ⟨hplain, rfl⟩
      exact ⟨_, rfl, (ih hps).mpr ⟨hplain, rfl⟩⟩

end Enumerant.Header
