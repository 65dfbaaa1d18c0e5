import Enumerant.Proofs.Header.Form
import Enumerant.Proofs.Header.Position
import Enumerant.Proofs.Text.Squeeze

/-!
# Lexemes of collapsed texts

The text of an initializer is kept with its blanks collapsed. Most pieces are not changed by that
for what they are: blanks stay blanks, and words and numbers hold none. What changes is what depends
on line breaks. A line comment goes on to the end of the collapsed text, a directive is none any
more, and a quoted text that a line break ended does not end there.
-/

namespace Enumerant.Header

open Text

variable {fresh after : Bool} {c : Char} {cs rest : List Char} {p : Piece} {ps qs : List Piece}

/-! ### Extents -/

/-- A block comment is closed where it was. -/
theorem commentExtent_squeeze (after : Bool) (cs : List Char) :
    commentExtent (squeeze after cs) =
      (squeeze after (cs.take (commentExtent cs))).length := by
  induction cs generalizing after with
  | nil => rfl
  | cons c cs ih =>
    rw [commentExtent_cons]
    cases hc : isBlank c
    · by_cases hend : c = '*' ∧ cs.head? = some '/'
      · obtain ⟨rfl, hcs⟩ := hend
        obtain ⟨ds, rfl⟩ := List.head?_eq_some_iff.mp hcs
        rfl
      · have hend' : ¬ (c = '*' ∧ (squeeze false cs).head? = some '/') := by
          rwa [head?_squeeze_false (by decide)]
        rw [squeeze_cons_of_not_blank hc, commentExtent_cons, if_neg hend, if_neg hend',
          List.take_succ_cons, squeeze_cons_of_not_blank hc, List.length_cons, ih]
    · have hne : ¬ (c = '*' ∧ cs.head? = some '/') := by
        rintro ⟨rfl, -⟩
        exact absurd hc (by decide)
      rw [if_neg hne, List.take_succ_cons]
      cases after
      · rw [squeeze_false_cons_of_blank hc, squeeze_false_cons_of_blank hc, commentExtent_cons,
          if_neg (by simp), ih, List.length_cons]
      · rw [squeeze_true_cons_of_blank hc, squeeze_true_cons_of_blank hc, ih]

section Quoted

variable {quote : Char} (hquote : isBlank quote = false)

include hquote in
/-- The quote closes the text also where blanks are collapsed. -/
theorem quotedExtent_squeeze_singleton (hrest : rest ≠ [])
    (h : quotedExtent quote (c :: rest) = 1) (hlast : c ≠ '\n') :
    quotedExtent quote (squeeze after [c] ++ cs) = (squeeze after [c]).length := by
  have hpos : 0 < quotedExtent quote rest := quotedExtent_pos hrest
  have hc : c ≠ '\\' := by
    rintro rfl
    obtain ⟨d, rest, rfl⟩ := List.exists_cons_of_ne_nil hrest
    rw [quotedExtent_escape] at h
    simp at h
  rw [quotedExtent_cons_of_ne hc] at h
  split_ifs at h with hend
  · obtain rfl : c = quote := hend.resolve_right hlast
    rw [squeeze_cons_of_not_blank hquote, squeeze_nil, List.singleton_append,
      quotedExtent_cons_of_ne hc, if_pos hend]
    rfl
  · omega

/-- A backslash takes the character behind it along, collapsed or not. -/
theorem quotedExtent_squeeze_escape {d : Char} {ds : List Char}
    (ih : quotedExtent quote (squeeze (isBlank d) cs ++ ds) = (squeeze (isBlank d) cs).length) :
    quotedExtent quote (squeeze after ('\\' :: d :: cs) ++ ds) =
      (squeeze after ('\\' :: d :: cs)).length := by
  rw [squeeze_cons_of_not_blank (by decide)]
  cases hd : isBlank d <;> rw [hd] at ih
  · rw [squeeze_cons_of_not_blank hd, List.cons_append, List.cons_append, quotedExtent_escape, ih]
    rfl
  · rw [squeeze_false_cons_of_blank hd, List.cons_append, List.cons_append, quotedExtent_escape, ih]
    rfl

include hquote in
/-- Any other character that does not close the text does not close it where blanks are
collapsed. -/
theorem quotedExtent_squeeze_cons {ds : List Char} (hback : c ≠ '\\')
    (hend : ¬ (c = quote ∨ c = '\n'))
    (ih : ∀ after, quotedExtent quote (squeeze after cs ++ ds) = (squeeze after cs).length) :
    quotedExtent quote (squeeze after (c :: cs) ++ ds) = (squeeze after (c :: cs)).length := by
  cases hc : isBlank c
  · rw [squeeze_cons_of_not_blank hc, List.cons_append, quotedExtent_cons_of_ne hback,
      if_neg hend, ih, List.length_cons]
  cases after
  · -- The space for the blanks neither closes the text nor ends its line.
    have hspace : ¬ (' ' = quote ∨ ' ' = '\n') := by
      rintro (rfl | h)
      · exact absurd hquote (by decide)
      · exact absurd h (by decide)
    rw [squeeze_false_cons_of_blank hc, List.cons_append, quotedExtent_cons_of_ne (by decide),
      if_neg hspace, ih, List.length_cons]
  · rw [squeeze_true_cons_of_blank hc, ih]

include hquote in
/-- A quoted text that no line break ends is closed where it was. -/
theorem quotedExtent_squeeze (hrest : rest ≠ []) :
    ∀ (cs : List Char) (after : Bool), quotedExtent quote (cs ++ rest) = cs.length →
      cs.getLast? ≠ some '\n' →
      quotedExtent quote (squeeze after cs ++ squeeze (blankAfter after cs) rest) =
        (squeeze after cs).length
  | [], after, hcs, hlast => absurd hcs (Nat.ne_of_gt (quotedExtent_pos hrest))
  | [c], after, hcs, hlast =>
    quotedExtent_squeeze_singleton hquote hrest hcs fun h => hlast (by simp [h])
  | c :: d :: cs, after, hcs, hlast => by
    -- A backslash takes another character along, so the text goes on behind one or behind both.
    have ih₁ := quotedExtent_squeeze hrest cs (isBlank d)
    have ih₂ := fun after => quotedExtent_squeeze hrest (d :: cs) after
    by_cases hback : c = '\\'
    · subst hback
      have hlast₁ : cs.getLast? ≠ some '\n' := by
        rcases cs with - | ⟨e, cs⟩
        · simp
        · simpa using hlast
      rw [List.cons_append, List.cons_append, quotedExtent_escape] at hcs
      exact quotedExtent_squeeze_escape (ih₁ (by simpa using hcs) hlast₁)
    · rw [List.cons_append, quotedExtent_cons_of_ne hback] at hcs
      split_ifs at hcs with hend
      · simp at hcs
      · rw [blankAfter_cons]
        exact quotedExtent_squeeze_cons hquote hback hend fun after =>
          ih₂ after (by simpa using hcs) (by simpa using hlast)

end Quoted

/-! ### Pieces -/

/-- What ends a run still ends it; a blank does. -/
theorem EndsRun.collapse {kind : Char → Bool} (h : EndsRun kind rest) (hblank : kind ' ' = false) :
    EndsRun kind (squeeze false rest) := by
  rcases rest with - | ⟨e, rest⟩
  · exact h
  · cases he : isBlank e
    · rw [squeeze_cons_of_not_blank he]
      exact h
    · rw [squeeze_false_cons_of_blank he]
      rintro d ⟨⟩
      exact hblank

/-- A piece that is the same when blanks are collapsed: no directive, stray or line comment, and no
quoted text that a line break ends. -/
structure Piece.Keeps (p : Piece) : Prop where
  not_directive : p.kind ≠ .directive
  not_strays : p.kind ≠ .strays
  not_remark : ∀ text, p.kind ≠ .token (.remark text)
  quoted : p.kind = .quoted → p.text.getLast? ≠ some '\n'

/-- The characters of a number, a word or a punctuation are no blanks. -/
theorem Form.not_isBlank {lexeme : Lexeme} (h : Form fresh rest p) (hp : p.kind = .token lexeme)
    (hsolid : lexeme.isSolid) : ∀ c ∈ p.text, isBlank c = false := by
  cases h with
  | remark =>
    cases hp
    cases hsolid
  | number hc hcs =>
    refine List.forall_mem_cons.mpr ⟨?_, fun d hd => not_isBlank_of_isAlphanum (hcs d hd)⟩
    exact not_isBlank_of_isAlphanum (by simp [Char.isAlphanum, hc])
  | word hc hcs =>
    refine List.forall_mem_cons.mpr ⟨?_, fun d hd => not_isBlank_of_isWordChar (hcs d hd)⟩
    exact not_isBlank_of_isWordChar (isWordChar_of_isWordStart hc)
  | @mark q => cases q <;> simp [Punctuation.text, isBlank]
  | _ => cases hp

theorem isSolid_numberLexeme (cs : List Char) : (numberLexeme cs).isSolid := by
  rcases numberLexeme_cases cs with ⟨v, h⟩ | ⟨b, h⟩ <;> simp [h, Lexeme.isSolid]

/-- A piece that stands for another one where blanks are collapsed. -/
structure Piece.StandsFor (q p : Piece) (fresh after : Bool) (rest : List Char) : Prop where
  text : q.text = squeeze after p.text
  lexemes : q.lexemes = p.lexemes
  form : Form fresh (squeeze (blankAfter after p.text) rest) q

/-- A piece without blanks stands for itself. -/
theorem Piece.StandsFor.of_not_isBlank (hblank : ∀ c ∈ p.text, isBlank c = false)
    (hne : p.text ≠ []) (h : Form fresh (squeeze false rest) p) :
    p.StandsFor p fresh after rest where
  text := (squeeze_of_forall hblank).symm
  lexemes := rfl
  form := by rwa [blankAfter_of_forall hblank hne]

/-- What a piece becomes when blanks are collapsed. A blank behind another one vanishes. -/
theorem Form.collapse (h : Form fresh rest p) (hp : p.Keeps) (hrest : p.kind = .quoted → rest ≠ [])
    (fresh' after : Bool) :
    (squeeze after p.text = [] ∧ p.lexemes = []) ∨
      ∃ q : Piece, q.StandsFor p fresh' after rest := by
  cases h with
  | @blank c hc =>
    have hblank : isBlank c := by
      rw [isSpace_iff] at hc
      rw [isBlank_iff]
      omega
    cases after
    · exact .inr ⟨⟨.blank, [' ']⟩, by rw [squeeze_false_cons_of_blank hblank]; rfl, rfl, .blank rfl⟩
    · exact .inl ⟨by rw [squeeze_true_cons_of_blank hblank, squeeze_nil], rfl⟩
  | directive => exact absurd rfl hp.not_directive
  | remark => exact absurd rfl (hp.not_remark _)
  | @comment cs hcs =>
    refine .inr ⟨⟨.comment, '/' :: '*' :: squeeze false cs⟩, ?_, rfl, .comment ?_⟩
    · rw [squeeze_cons_of_not_blank (by decide), squeeze_cons_of_not_blank (by decide)]
    -- What closes the comment is kept, so the squeezed comment is closed there, too.
    · have hclosed := commentExtent_squeeze false (cs ++ rest)
      rwa [hcs, List.take_left, squeeze_append] at hclosed
  | @quoted c cs hc hcs =>
    have hblank : isBlank c = false := by
      by_contra hb
      rw [Bool.not_eq_false, isBlank_iff] at hb
      omega
    -- A quoted text that a line break ends would go on behind the blank that takes its place.
    have hlast : cs.getLast? ≠ some '\n' := by
      rcases cs with - | ⟨d, cs⟩
      · simp
      · simpa using hp.quoted rfl
    refine .inr ⟨⟨.quoted, c :: squeeze false cs⟩, ?_, rfl, .quoted hc ?_⟩
    · rw [squeeze_cons_of_not_blank hblank]
    · rw [blankAfter_cons, hblank]
      exact quotedExtent_squeeze hblank (hrest rfl) cs false hcs hlast
  | @number c cs hc hcs hend =>
    have hword := (@Form.number fresh _ _ _ hc hcs hend).not_isBlank rfl (isSolid_numberLexeme _)
    exact .inr ⟨_, .of_not_isBlank hword (List.cons_ne_nil c cs)
      (.number hc hcs (hend.collapse (by decide)))⟩
  | @word c cs hc hcs hend =>
    have hword := (@Form.word fresh _ _ _ hc hcs hend).not_isBlank rfl rfl
    exact .inr ⟨_, .of_not_isBlank hword (List.cons_ne_nil c cs)
      (.word hc hcs (hend.collapse (by decide)))⟩
  | @mark q hslash =>
    have hmark := (@Form.mark fresh _ _ hslash).not_isBlank rfl rfl
    have hne : q.text ≠ [] := by cases q <;> exact List.cons_ne_nil _ _
    refine .inr ⟨_, .of_not_isBlank hmark hne (.mark fun hq => ?_)⟩
    exact ⟨fun h => (hslash hq).1 ((head?_squeeze_false (by decide)).mp h),
      fun h => (hslash hq).2 ((head?_squeeze_false (by decide)).mp h)⟩
  | strays => exact absurd rfl hp.not_strays

/-- Collapsing blanks changes nothing for what pieces in front say, up to the first one that
does not keep. -/
theorem exists_split_squeeze {source : List Char} (hps : Piece.split fresh source = ps ++ qs)
    (hk : ∀ p ∈ ps, p.Keeps) (hlast : ∀ p ∈ (ps ++ qs).getLast?, p.kind ≠ .quoted)
    (fresh' after : Bool) :
    ∃ ps', Piece.split fresh' (squeeze after source) =
        ps' ++ Piece.split (Piece.freshAfter fresh' ps')
          (squeeze (blankAfter after (ps.flatMap Piece.text)) (qs.flatMap Piece.text)) ∧
      ps'.flatMap Piece.text = squeeze after (ps.flatMap Piece.text) ∧
      ps'.flatMap Piece.lexemes = ps.flatMap Piece.lexemes := by
  induction ps generalizing fresh source fresh' after with
  | nil =>
    refine ⟨[], ?_, rfl, rfl⟩
    rw [← Piece.flatMap_text_split fresh source, hps]
    rfl
  | cons p ps ih =>
    rw [List.cons_append] at hps
    obtain ⟨rfl, hp, hps⟩ := Piece.begins_of_split hps
    obtain ⟨hkeeps, hk⟩ := List.forall_mem_cons.mp hk
    -- A quoted text is not the last piece, so something behind it shows where it ends.
    have hrest : p.kind = .quoted → (ps ++ qs).flatMap Piece.text ≠ [] := by
      intro hquoted hnil
      rcases hmore : ps ++ qs with - | ⟨q, more⟩
      · exact hlast p (by rw [List.cons_append, hmore]; rfl) hquoted
      · rw [hmore] at hps hnil
        have hne := Piece.text_ne_nil_of_mem_split (hps ▸ List.mem_cons_self)
        simp_all
    have hlast : ∀ q ∈ (ps ++ qs).getLast?, q.kind ≠ .quoted := by
      intro q hq
      refine hlast q ?_
      rw [List.cons_append, List.getLast?_cons, Option.mem_def.mp hq]
      rfl
    rw [squeeze_append]
    rcases hp.form.collapse hkeeps hrest fresh' after with ⟨hnil, hlex⟩ | ⟨q, htext, hlex, hq⟩
    · obtain ⟨ps', hsplit, htexts, hlexemes⟩ := ih hps hk hlast fresh' (blankAfter after p.text)
      refine ⟨ps', ?_, ?_, ?_⟩
      · rw [hnil, List.nil_append, hsplit, List.flatMap_cons, blankAfter_append]
      · rw [htexts, List.flatMap_cons, squeeze_append, hnil, List.nil_append]
      · rw [hlexemes, List.flatMap_cons, hlex, List.nil_append]
    · obtain ⟨ps', hsplit, htexts, hlexemes⟩ :=
        ih hps hk hlast (q.leavesFresh fresh') (blankAfter after p.text)
      refine ⟨q :: ps', ?_, ?_, ?_⟩
      · rw [← htext, Piece.split_of_begins (.of_form hq), hsplit, List.flatMap_cons,
          blankAfter_append]
        rfl
      · rw [List.flatMap_cons, List.flatMap_cons, squeeze_append, htext, htexts]
      · rw [List.flatMap_cons, List.flatMap_cons, hlex, hlexemes]

end Enumerant.Header
