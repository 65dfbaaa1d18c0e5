import Enumerant.Proofs.Header.LineEnding

/-!
# Comments in place of blanks

By the rules of C a block comment is as good as a blank. Where a text ends by these rules is told by
`modeAfter`: in code, in a comment, or in a literal. Behind code a comment should therefore say what
a blank says in its place (`ActsAsSpace`).

The pieces of a header know of comments outside of directives only. `actsAsSpace_iff` shows what
comes of it. Elsewhere a comment is skipped as a whole, but it leaves the line fresh exactly if
there is a line break in it, so that it may change which `#` opens a directive. A directive goes on
to the end of its line, which may be within a comment; what is left of the comment is then read as
code (`lexemes_blockComment_of_newline`).
-/

namespace Enumerant.Header

open Text

variable {fresh : Bool} {quote c d : Char} {cs ds rest : List Char} {p : Piece} {ps : List Piece}

/-! ### The rules of C -/

/-- Where a text has got to by the rules of C. A backslash at the end of a line carries a line
comment and a literal on to the next line; the two characters that open or close a comment are taken
to stand on one line. -/
inductive Mode where
  | code
  /-- In code, behind a slash, which may open a comment. -/
  | slash
  | line
  /-- In a line comment, behind a backslash. -/
  | lineEscape
  | block
  /-- In a block comment, behind an asterisk, which may close it. -/
  | star
  | quoted (quote : Char)
  /-- In a literal, behind a backslash. -/
  | quotedEscape (quote : Char)
  deriving DecidableEq

/-- Where a character of code leads. -/
def Mode.behind (c : Char) : Mode :=
  if c = '/' then .slash
  else if c.toNat = 0x22 ∨ c.toNat = 0x27 then .quoted c
  else .code

/-- Where one more character leads. -/
def Mode.step : Mode → Char → Mode
  | code, c => behind c
  | slash, c => if c = '/' then line else if c = '*' then block else behind c
  | line, c => if c = '\n' then code else if c = '\\' then lineEscape else line
  | lineEscape, c => if c = '\\' then lineEscape else line
  | block, c => if c = '*' then star else block
  | star, c => if c = '/' then code else if c = '*' then star else block
  | quoted quote, c =>
    if c = '\\' then quotedEscape quote else if c = quote ∨ c = '\n' then code else quoted quote
  | quotedEscape quote, _ => quoted quote

/-- Where a text ends. -/
def modeAfter (cs : List Char) : Mode :=
  cs.foldl Mode.step .code

/-- A text goes on as code does. -/
def Mode.ReadsAsCode (m : Mode) (cs : List Char) : Prop :=
  ∀ c ∈ cs.head?, m.step c = .behind c

theorem modeAfter_append (cs ds : List Char) :
    modeAfter (cs ++ ds) = ds.foldl Mode.step (modeAfter cs) :=
  List.foldl_append

/-- What is read as code leads where it does from code. -/
theorem Mode.ReadsAsCode.foldl_eq {m : Mode} (h : m.ReadsAsCode cs) (hcs : cs ≠ []) :
    cs.foldl Mode.step m = modeAfter cs := by
  obtain ⟨c, cs, rfl⟩ := List.exists_cons_of_ne_nil hcs
  rw [List.foldl_cons, h c rfl]
  rfl

theorem readsAsCode_code (cs : List Char) : Mode.code.ReadsAsCode cs :=
  fun _ _ => rfl

/-- Plain characters stay in code. -/
theorem modeAfter_of_plain (h : ∀ c ∈ cs, Mode.behind c = .code) : modeAfter cs = .code := by
  induction cs with
  | nil => rfl
  | cons c cs ih =>
    obtain ⟨hc, hcs⟩ := List.forall_mem_cons.mp h
    rw [modeAfter, List.foldl_cons, Mode.step, hc]
    exact ih hcs

/-! ### Comments and literals -/

/-- An asterisk in a comment means nothing unless a slash follows. -/
theorem foldl_step_star (hcs : cs ≠ []) (hhead : cs.head? ≠ some '/') :
    cs.foldl Mode.step .star = cs.foldl Mode.step .block := by
  obtain ⟨c, cs, rfl⟩ := List.exists_cons_of_ne_nil hcs
  have hc : c ≠ '/' := fun h => hhead (by rw [h]; rfl)
  rw [List.foldl_cons, List.foldl_cons, Mode.step, Mode.step, if_neg hc]

/-- A block comment is closed, whatever follows, or it goes on to the end. -/
theorem commentExtent_cases (h : commentExtent (cs ++ rest) = cs.length) :
    (cs.foldl Mode.step .block = .code ∧ ∀ ds, commentExtent (cs ++ ds) = cs.length) ∨
      rest = [] ∧ cs.foldl Mode.step .block ≠ .code := by
  induction cs with
  | nil =>
    refine .inr ⟨?_, by simp⟩
    rcases rest with - | ⟨d, rest⟩
    · rfl
    · rw [List.nil_append, commentExtent_cons] at h
      split_ifs at h
  | cons c cs ih =>
    rw [List.cons_append, commentExtent_cons, List.length_cons] at h
    split_ifs at h with hend
    · obtain ⟨rfl, hhead⟩ := hend
      obtain ⟨d, rfl⟩ := List.length_eq_one_iff.mp (show cs.length = 1 by omega)
      cases hhead
      exact .inl ⟨rfl, fun ds => rfl⟩
    have ih := ih (by omega)
    by_cases hc : c = '*'
    · rcases cs with - | ⟨d, cs⟩
      · refine .inr ⟨?_, by simp [Mode.step, hc]⟩
        exact (ih.resolve_left fun h => by simp at h).1
      · -- Behind an asterisk there is no slash, so that nothing is closed there.
        have hslash : d ≠ '/' := fun hd => hend ⟨hc, by rw [hd]; rfl⟩
        have hfold : (c :: d :: cs).foldl Mode.step .block = (d :: cs).foldl Mode.step .block := by
          rw [List.foldl_cons, Mode.step, if_pos hc]
          exact foldl_step_star (List.cons_ne_nil d cs) (by simpa using hslash)
        rw [hfold]
        refine ih.imp_left fun ⟨hcode, hclosed⟩ => ⟨hcode, fun ds => ?_⟩
        rw [List.cons_append, commentExtent_cons, if_neg (by simp [hslash]), hclosed]
        rfl
    · rw [List.foldl_cons, Mode.step, if_neg hc]
      refine ih.imp_left fun ⟨hcode, hclosed⟩ => ⟨hcode, fun ds => ?_⟩
      rw [List.cons_append, commentExtent_cons, if_neg fun h => hc h.1, hclosed, List.length_cons]

/-- A literal is closed, whatever follows, or it goes on to the end. -/
theorem quotedExtent_cases :
    ∀ cs : List Char, quotedExtent quote (cs ++ rest) = cs.length →
      (cs.foldl Mode.step (.quoted quote) = .code ∧
          ∀ ds, quotedExtent quote (cs ++ ds) = cs.length) ∨
        rest = [] ∧ cs.foldl Mode.step (.quoted quote) ≠ .code
  | [], h => .inr ⟨eq_nil_of_quotedExtent_eq_zero h, by simp⟩
  | [c], h => by
    rw [List.foldl_cons, List.foldl_nil, Mode.step]
    by_cases hc : c = '\\'
    · subst hc
      -- A lone backslash escapes what follows, so the literal ends here only at the end.
      refine .inr ⟨?_, by simp⟩
      rcases rest with - | ⟨d, rest⟩
      · rfl
      · rw [List.singleton_append, quotedExtent_escape] at h
        simp at h
    rw [List.singleton_append, quotedExtent_cons_of_ne hc] at h
    rw [if_neg hc]
    split_ifs at h ⊢ with hend
    · refine .inl ⟨rfl, fun ds => ?_⟩
      rw [List.singleton_append, quotedExtent_cons_of_ne hc, if_pos hend]
      rfl
    · exact .inr ⟨eq_nil_of_quotedExtent_eq_zero (Nat.succ.inj h), by simp⟩
  | c :: d :: cs, h => by
    rw [List.foldl_cons, Mode.step]
    by_cases hc : c = '\\'
    · subst hc
      rw [List.cons_append, List.cons_append, quotedExtent_escape] at h
      rw [if_pos rfl, List.foldl_cons, Mode.step]
      refine (quotedExtent_cases cs (by simpa using h)).imp_left
        fun ⟨hcode, hclosed⟩ => ⟨hcode, fun ds => ?_⟩
      rw [List.cons_append, List.cons_append, quotedExtent_escape, hclosed, List.length_cons,
        List.length_cons]
    -- A literal that ended with this character would not be as long as the text.
    · rw [List.cons_append, quotedExtent_cons_of_ne hc] at h
      rw [if_neg hc]
      split_ifs at h ⊢ with hend
      · simp at h
      · refine (quotedExtent_cases (d :: cs) (by simpa using h)).imp_left
          fun ⟨hcode, hclosed⟩ => ⟨hcode, fun ds => ?_⟩
        rw [List.cons_append, quotedExtent_cons_of_ne hc, if_neg hend, hclosed]
        rfl

/-! ### Where pieces end -/

theorem behind_eq_code (hslash : c ≠ '/') (hquote : ¬ (c.toNat = 0x22 ∨ c.toNat = 0x27)) :
    Mode.behind c = .code := by
  rw [Mode.behind, if_neg hslash, if_neg hquote]

/-- A quote opens a literal. -/
theorem behind_eq_quoted (h : c.toNat = 0x22 ∨ c.toNat = 0x27) : Mode.behind c = .quoted c := by
  have hslash : c ≠ '/' := by
    rintro rfl
    exact absurd h (by decide)
  rw [Mode.behind, if_neg hslash, if_pos h]

/-- Letters, digits and underscores neither open nor close anything. -/
theorem modeAfter_of_isWordChar (h : ∀ c ∈ cs, isWordChar c) : modeAfter cs = .code := by
  refine modeAfter_of_plain fun c hc => ?_
  have hcode := isWordChar_iff.mp (h c hc)
  refine behind_eq_code ?_ (by omega)
  rintro rfl
  exact absurd hcode (by decide)

/-- Punctuation stays in code, a slash apart. -/
theorem modeAfter_mark {m : Punctuation} (hm : m ≠ .slash) : modeAfter m.text = .code := by
  cases m with
  | slash => exact absurd rfl hm
  | _ => rfl

/-- A line comment goes on to the end of its line. -/
theorem foldl_step_line (h : ∀ c ∈ cs, c ≠ '\n') :
    cs.foldl Mode.step .line ≠ .code ∧ cs.foldl Mode.step .lineEscape ≠ .code := by
  induction cs with
  | nil => simp
  | cons c cs ih =>
    obtain ⟨hc, hcs⟩ := List.forall_mem_cons.mp h
    rw [List.foldl_cons, List.foldl_cons, Mode.step, Mode.step, if_neg hc]
    split
    · exact ⟨(ih hcs).2, (ih hcs).2⟩
    · exact ⟨(ih hcs).1, (ih hcs).1⟩

theorem readsAsCode_of_eq {m : Mode} (h : m = .code) : m.ReadsAsCode rest :=
  h ▸ readsAsCode_code rest

theorem readsAsCode_nil (m : Mode) : m.ReadsAsCode [] :=
  fun _ hc => nomatch hc

/-- A slash that opens no comment is code. -/
theorem readsAsCode_slash (hslash : rest.head? ≠ some '/') (hstar : rest.head? ≠ some '*') :
    Mode.slash.ReadsAsCode rest := by
  intro c hc
  rw [Option.mem_def] at hc
  rw [hc, ne_eq, Option.some_inj] at hslash hstar
  rw [Mode.step, if_neg hslash, if_neg hstar]

/-- Where a piece ends that does not end with its line, the text goes on as code does. -/
theorem Form.readsAsCode (h : Form fresh rest p) (hline : ¬ p.EndsWithLine) :
    (modeAfter p.text).ReadsAsCode rest := by
  cases h with
  | @blank c hc =>
    have hcode := isSpace_iff.mp hc
    refine readsAsCode_of_eq (behind_eq_code ?_ (by omega))
    rintro rfl
    exact absurd hc (by decide)
  | directive => exact absurd (.inl rfl) hline
  | remark => exact absurd (.inr ⟨_, rfl⟩) hline
  | @comment cs hcs =>
    -- A comment that is not closed goes on to the end, and nothing is left to read.
    rcases commentExtent_cases hcs with ⟨hcode, -⟩ | ⟨rfl, -⟩
    · exact readsAsCode_of_eq hcode
    · exact readsAsCode_nil _
  | @quoted c cs hc hcs =>
    rw [modeAfter, List.foldl_cons, Mode.step, behind_eq_quoted hc]
    rcases quotedExtent_cases cs hcs with ⟨hcode, -⟩ | ⟨rfl, -⟩
    · exact readsAsCode_of_eq hcode
    · exact readsAsCode_nil _
  | @number c cs hc hcs =>
    have hc : c.isAlphanum := by simp [Char.isAlphanum, hc]
    exact readsAsCode_of_eq (modeAfter_of_isWordChar (List.forall_mem_cons.mpr
      ⟨isWordChar_of_isAlphanum hc, fun d hd => isWordChar_of_isAlphanum (hcs d hd)⟩))
  | @word c cs hc hcs =>
    exact readsAsCode_of_eq (modeAfter_of_isWordChar (List.forall_mem_cons.mpr
      ⟨isWordChar_of_isWordStart hc, hcs⟩))
  | @mark m hslash =>
    by_cases hm : m = .slash
    · subst hm
      exact readsAsCode_slash (hslash rfl).1 (hslash rfl).2
    · exact readsAsCode_of_eq (modeAfter_mark hm)
  | @strays c hc => exact readsAsCode_of_eq (behind_eq_code hc.not_slash hc.not_quote)

/-- Where code ends with a piece, the piece ends there also in front of a blank or a slash. -/
theorem Form.of_modeAfter (h : Form fresh [] p) (hdirective : p.kind ≠ .directive)
    (hcode : modeAfter p.text = .code) (hds : ∀ d ∈ ds.head?, d = ' ' ∨ d = '/') :
    Form fresh ds p := by
  cases h with
  | blank hc => exact .blank hc
  | directive => exact absurd rfl hdirective
  | @remark cs hcs => exact absurd hcode (foldl_step_line (by simpa using hcs)).1
  | @comment cs hcs =>
    rcases commentExtent_cases hcs with ⟨-, hclosed⟩ | ⟨-, hopen⟩
    · exact .comment (hclosed ds)
    · exact absurd hcode hopen
  | @quoted c cs hc hcs =>
    rw [modeAfter, List.foldl_cons, Mode.step, behind_eq_quoted hc] at hcode
    rcases quotedExtent_cases cs hcs with ⟨-, hclosed⟩ | ⟨-, hopen⟩
    · exact .quoted hc (hclosed ds)
    · exact absurd hcode hopen
  | @number c cs hc hcs =>
    refine .number hc hcs fun d hd => ?_
    rcases hds d hd with rfl | rfl <;> rfl
  | @word c cs hc hcs =>
    refine .word hc hcs fun d hd => ?_
    rcases hds d hd with rfl | rfl <;> rfl
  | @mark m hslash =>
    refine .mark ?_
    rintro rfl
    cases hcode
  | @strays c hc hp =>
    refine .strays hc hp ?_
    rintro (rfl | rfl) hhead
    · simpa using hds _ hhead
    · simpa using hds _ hhead

/-! ### Texts that go on -/

/-- What a text says: the lexemes of its tokens. -/
def lexemes (cs : List Char) : List Lexeme :=
  (tokens cs).map Token.lexeme

/-- What a text says behind another one, where the line is fresh or not. -/
def lexemesFrom (fresh : Bool) (cs : List Char) : List Lexeme :=
  (Piece.split fresh cs).flatMap Piece.lexemes

theorem lexemes_eq (cs : List Char) : lexemes cs = lexemesFrom true cs := by
  rw [lexemes, tokens_eq_located, map_lexeme_located, lexemesFrom]

/-- The line on which a text ends is fresh. -/
def endsFresh (cs : List Char) : Bool :=
  Piece.freshAfter true (Piece.split true cs)

/-- A text ends in a directive. -/
def endsInDirective (cs : List Char) : Bool :=
  (Piece.split true cs).getLast?.any fun p => p.kind = .directive

/-- The last piece of a text begins in code by the rules of C, too. -/
def InStep (cs : List Char) : Prop :=
  ∀ last ∈ (Piece.split true cs).getLast?,
    (modeAfter ((Piece.split true cs).dropLast.flatMap Piece.text)).ReadsAsCode last.text

/-- Behind code a text is divided as if it stood alone. -/
theorem lexemes_append (hcode : modeAfter cs = .code) (hstep : InStep cs)
    (hdirective : endsInDirective cs = false) (hds : ∀ d ∈ ds.head?, d = ' ' ∨ d = '/') :
    lexemes (cs ++ ds) = lexemes cs ++ lexemesFrom (endsFresh cs) ds := by
  rw [lexemes_eq, lexemes_eq, lexemesFrom, lexemesFrom, lexemesFrom, endsFresh]
  rcases List.eq_nil_or_concat (Piece.split true cs) with hnil | ⟨before, last, hsplit⟩
  · have hcs := Piece.flatMap_text_split true cs
    rw [hnil, List.flatMap_nil] at hcs
    rw [← hcs, Piece.split_nil]
    rfl
  rw [List.concat_eq_append] at hsplit
  rw [InStep, hsplit, List.dropLast_concat, List.getLast?_concat] at hstep
  rw [endsInDirective, hsplit, List.getLast?_concat, Option.any_some,
    decide_eq_false_iff_not] at hdirective
  have hform := Piece.form_of_split hsplit
  have hmode : modeAfter last.text = .code := by
    have hcs := Piece.flatMap_text_split true cs
    rw [hsplit, List.flatMap_append, List.flatMap_singleton] at hcs
    rw [← hcs, modeAfter_append] at hcode
    rw [← hcode]
    refine ((hstep last rfl).foldl_eq ?_).symm
    exact @Piece.text_ne_nil_of_mem_split true cs last (by simp [hsplit])
  rw [Piece.split_append hsplit (.of_form (hform.of_modeAfter hdirective hmode hds)), hsplit,
    List.append_cons, List.flatMap_append]

/-- A directive goes on with the text behind it, and what follows it is on a fresh line. -/
theorem lexemes_append_of_directive (h : endsInDirective cs)
    (hend : cs.getLast? ≠ some '\\' ∨ ds.head? ≠ some '\n') :
    lexemes (cs ++ ds) = lexemes cs ++ lexemesFrom true (ds.drop (directiveExtent ds)) := by
  rw [lexemes_eq, lexemes_eq, lexemesFrom, lexemesFrom, lexemesFrom]
  obtain ⟨last, hlast, hkind⟩ := (Option.any_eq_true _ _).mp h
  obtain ⟨before, hsplit⟩ := List.getLast?_eq_some_iff.mp hlast
  have hcs := Piece.flatMap_text_split true cs
  rw [hsplit, List.flatMap_append, List.flatMap_singleton] at hcs
  rw [Piece.split_append_last hsplit, hsplit]
  have hform := Piece.form_of_split hsplit
  rw [decide_eq_true_eq] at hkind
  cases hform with
  | @directive es hfresh hes =>
    have hend : es.getLast? ≠ some '\\' ∨ ds.head? ≠ some '\n' := by
      refine hend.imp_left fun hlast hback => hlast ?_
      rw [← hcs, List.getLast?_append, List.getLast?_cons, hback]
      rfl
    have hextent := directiveExtent_append (continued_of_directiveExtent hes).1 hend
    -- The directive takes the front of the text behind it along.
    have htake : (ds.take (directiveExtent ds)).length = directiveExtent ds :=
      List.length_take_of_le (directiveExtent_le ds)
    have hlonger : Form true (ds.drop (directiveExtent ds))
        ⟨.directive, '#' :: (es ++ ds.take (directiveExtent ds))⟩ := by
      refine .directive rfl ?_
      rw [List.append_assoc, List.take_append_drop, hextent, List.length_append, htake]
    have hsplit := Piece.split_of_begins (.of_form hlonger)
    rw [List.cons_append, List.append_assoc, List.take_append_drop] at hsplit
    rw [hfresh, List.cons_append, hsplit, List.flatMap_append, List.flatMap_append,
      List.flatMap_cons, List.append_assoc]
    simp [Piece.leavesFresh, Piece.lexemes]
  | _ => cases hkind

/-- Pieces begin in code by the rules of C as long as no directive and no line comment in front goes
on behind its line by these rules. -/
theorem readsAsCode_of_split {m : Mode} {before after : List Piece}
    (h : Piece.split fresh cs = before ++ p :: after) (hm : m.ReadsAsCode cs)
    (hover : ∀ q ∈ before, q.EndsWithLine → modeAfter (q.text ++ ['\n']) = .code) :
    ((before.flatMap Piece.text).foldl Mode.step m).ReadsAsCode p.text := by
  induction before generalizing fresh cs m with
  | nil =>
    obtain ⟨rfl, ⟨c, ds, htext, -⟩, -⟩ := Piece.begins_of_split h
    rw [htext] at hm ⊢
    exact hm
  | cons q before ih =>
    rw [List.cons_append] at h
    obtain ⟨rfl, hq, hrest⟩ := Piece.begins_of_split h
    obtain ⟨hline, hover⟩ := List.forall_mem_cons.mp hover
    have hform := hq.form
    obtain ⟨c, ds, htext, -⟩ := hq
    have hmode : q.text.foldl Mode.step m = modeAfter q.text := by
      rw [htext] at hm ⊢
      exact Mode.ReadsAsCode.foldl_eq hm (List.cons_ne_nil c ds)
    rw [List.flatMap_cons, List.foldl_append, hmode]
    refine ih hrest ?_ hover
    by_cases hends : q.EndsWithLine
    · -- What follows is a line break, and behind that there is code.
      intro d hd
      have hnewline : d = '\n' := by simpa using hform.endsRun_of_endsWithLine hends d hd
      have hcode := hline hends
      rw [modeAfter_append] at hcode
      rw [hnewline]
      exact hcode
    · exact hform.readsAsCode hends

/-- The last piece begins in code if no directive and no line comment goes on behind its line by the
rules of C. -/
theorem inStep_of_forall
    (h : ∀ q ∈ Piece.split true cs, q.EndsWithLine → modeAfter (q.text ++ ['\n']) = .code) :
    InStep cs := by
  intro last hlast
  obtain ⟨before, hsplit⟩ := List.getLast?_eq_some_iff.mp hlast
  rw [hsplit, List.dropLast_concat]
  exact readsAsCode_of_split hsplit (readsAsCode_code cs)
    fun q hq => h q (by rw [hsplit]; exact List.mem_append_left _ hq)

/-! ### Comments and blanks -/

/-- The text of a block comment. -/
def blockComment (body : List Char) : List Char :=
  '/' :: '*' :: (body ++ ['*', '/'])

/-- A comment between two texts says what a blank in its place says. -/
def ActsAsSpace (front body back : List Char) : Prop :=
  lexemes (front ++ (blockComment body ++ back)) = lexemes (front ++ ' ' :: back)

/-- A comment ends where it is closed for the first time. -/
theorem commentExtent_of_unclosed (h : ¬ ['*', '/'] <:+: cs) (rest : List Char) :
    commentExtent (cs ++ '*' :: '/' :: rest) = cs.length + 2 := by
  induction cs with
  | nil => rfl
  | cons c cs ih =>
    rw [List.infix_cons_iff, not_or] at h
    have hend : ¬ (c = '*' ∧ (cs ++ '*' :: '/' :: rest).head? = some '/') := by
      rintro ⟨rfl, hhead⟩
      rcases cs with - | ⟨d, cs⟩
      · simp at hhead
      · cases hhead
        exact h.1 ⟨cs, rfl⟩
    rw [List.cons_append, commentExtent_cons, if_neg hend, ih h.2, List.length_cons]

/-- A comment is one piece. -/
theorem form_blockComment (h : ¬ ['*', '/'] <:+: cs) (fresh : Bool) (rest : List Char) :
    Form fresh rest ⟨.comment, blockComment cs⟩ := by
  refine .comment ?_
  rw [List.append_assoc]
  exact (commentExtent_of_unclosed h rest).trans (by simp)

/-- Behind a comment a line is fresh exactly if there is a line break in the comment. -/
theorem lexemesFrom_blockComment (h : ¬ ['*', '/'] <:+: cs) (fresh : Bool) (ds : List Char) :
    lexemesFrom fresh (blockComment cs ++ ds) = lexemesFrom (cs.contains '\n') ds := by
  have hfresh : (⟨.comment, blockComment cs⟩ : Piece).leavesFresh fresh = cs.contains '\n' := by
    simp [Piece.leavesFresh, blockComment]
  have hsplit := Piece.split_of_begins (.of_form (form_blockComment h fresh ds))
  rw [lexemesFrom, hsplit, hfresh]
  rfl

/-- Behind a space a line is fresh exactly if it was. -/
theorem lexemesFrom_space_cons (fresh : Bool) (ds : List Char) :
    lexemesFrom fresh (' ' :: ds) = lexemesFrom fresh ds := by
  have hform : Form fresh ds ⟨.blank, [' ']⟩ := .blank rfl
  have hfresh : (⟨.blank, [' ']⟩ : Piece).leavesFresh fresh = fresh := by
    simp [Piece.leavesFresh]
  have hsplit := Piece.split_of_begins (.of_form hform)
  rw [lexemesFrom, show ' ' :: ds = [' '] ++ ds from rfl, hsplit, hfresh]
  rfl

theorem getLast?_blockComment (body : List Char) : (blockComment body).getLast? = some '/' := by
  rw [blockComment, ← List.cons_append, ← List.cons_append, List.getLast?_append]
  rfl

/-- A directive is first on its line. -/
theorem lexemesFrom_hash (fresh : Bool) :
    lexemesFrom fresh ['#'] = if fresh then [] else [.stray 35] := by
  cases fresh <;> decide +kernel

/-- A directive that takes a text along ends where it would end without. -/
theorem drop_directiveExtent_append (h : Continued cs)
    (hend : cs.getLast? ≠ some '\\' ∨ ds.head? ≠ some '\n') :
    (cs ++ ds).drop (directiveExtent (cs ++ ds)) = ds.drop (directiveExtent ds) := by
  rw [directiveExtent_append h hend, List.drop_length_add_append]

/-- A comment is continued if its body is. -/
theorem continued_blockComment (h : Continued cs) : Continued (blockComment cs) := by
  have hopen : Continued ['/', '*'] := continued_of_not_mem (by decide)
  have hclose : Continued ['*', '/'] := continued_of_not_mem (by decide)
  exact hopen.append (h.append hclose)

/-- Within a directive a comment is read as code behind its first line break that is not
continued. -/
theorem lexemes_blockComment_of_newline {front body behind : List Char}
    (hdirective : endsInDirective front) (hbody : Continued body)
    (hlast : body.getLast? ≠ some '\\') (back : List Char) :
    lexemes (front ++ (blockComment (body ++ '\n' :: behind) ++ back)) =
      lexemes front ++ lexemesFrom true ('\n' :: (behind ++ '*' :: '/' :: back)) := by
  have hmark : Continued ['/', '*'] := continued_of_not_mem (by decide)
  have hopen : Continued ('/' :: '*' :: body) := hmark.append hbody
  have hcut : blockComment (body ++ '\n' :: behind) ++ back =
      ('/' :: '*' :: body) ++ '\n' :: (behind ++ '*' :: '/' :: back) := by
    simp [blockComment]
  have hlast : ('/' :: '*' :: body).getLast? ≠ some '\\' := by
    rw [List.getLast?_cons_cons, List.getLast?_cons]
    cases h : body.getLast? with
    | none => simp
    | some d => simpa [h] using hlast
  rw [lexemes_append_of_directive hdirective (.inr (by simp [blockComment])), hcut,
    drop_directiveExtent_append hopen (.inl hlast), directiveExtent_cons, if_neg (by simp),
    if_pos rfl, List.drop_zero]

/-- **When a comment acts as a blank.** Behind code, which the last piece agrees with, it does so
within a directive if all its line breaks are continued, and elsewhere exactly if there is a line
break in it where the line is fresh, and none where it is not. -/
theorem actsAsSpace_iff {front body : List Char} (hbody : ¬ ['*', '/'] <:+: body)
    (hcode : modeAfter front = .code) (hstep : InStep front) :
    (endsInDirective front → Continued body → ∀ back, ActsAsSpace front body back) ∧
      (¬ endsInDirective front →
        ((∀ back, ActsAsSpace front body back) ↔ ('\n' ∈ body ↔ endsFresh front))) := by
  constructor
  · intro hdirective hcontinued back
    have hcomment := @drop_directiveExtent_append _ back (continued_blockComment hcontinued)
      (.inl (by simp [getLast?_blockComment]))
    have hspace : (' ' :: back).drop (directiveExtent (' ' :: back)) =
        back.drop (directiveExtent back) :=
      @drop_directiveExtent_append [' '] back (continued_of_not_mem (by decide)) (.inl (by decide))
    rw [ActsAsSpace, lexemes_append_of_directive hdirective (.inr (by simp [blockComment])),
      lexemes_append_of_directive hdirective (.inr (by simp)), hcomment, hspace]
  · intro hdirective
    rw [Bool.not_eq_true] at hdirective
    -- What comes before the comment is read alike: only the freshness of the line is left.
    have hacts : ∀ back, ActsAsSpace front body back ↔
        lexemesFrom (body.contains '\n') back = lexemesFrom (endsFresh front) back := by
      intro back
      rw [ActsAsSpace, lexemes_append hcode hstep hdirective (by simp [blockComment]),
        lexemes_append hcode hstep hdirective (by simp), lexemesFrom_blockComment hbody,
        lexemesFrom_space_cons, List.append_cancel_left_eq]
    have hfresh : ('\n' ∈ body ↔ endsFresh front) ↔ body.contains '\n' = endsFresh front := by
      rw [← List.contains_iff_mem, ← Bool.eq_iff_iff]
    rw [hfresh]
    constructor
    · intro h
      -- A hash tells whether a line is fresh: it begins a directive only there.
      have hhash := (hacts ['#']).mp (h ['#'])
      rw [lexemesFrom_hash, lexemesFrom_hash] at hhash
      revert hhash
      cases body.contains '\n' <;> cases endsFresh front <;> simp
    · intro h back
      rw [hacts, h]

/-- A definition, whose line is over. -/
def definedDepth : List Char :=
  "#define DEPTH 1\n".toList

/-- The definition is a directive and a line break. -/
theorem split_definedDepth :
    Piece.split true definedDepth =
      [⟨.directive, "#define DEPTH 1".toList⟩, ⟨.blank, ['\n']⟩] := by
  decide +kernel

/-- Behind the definition the division agrees with C. -/
theorem inStep_definedDepth : InStep definedDepth := by
  have hall : ∀ q ∈ Piece.split true definedDepth, modeAfter (q.text ++ ['\n']) = .code := by
    rw [split_definedDepth]
    decide
  exact inStep_of_forall fun q hq _ => hall q hq

theorem not_endsInDirective_definedDepth : ¬ endsInDirective definedDepth := by
  rw [endsInDirective, split_definedDepth]
  decide

/-- The line behind the definition is fresh. -/
theorem endsFresh_definedDepth : endsFresh definedDepth := by
  rw [endsFresh, split_definedDepth]
  decide

/-- On the fresh line a comment of two lines acts as a blank. -/
theorem actsAsSpace_definedDepth :
    ¬ ['*', '/'] <:+: " one // \x27\n# two ".toList ∧ modeAfter definedDepth = .code ∧
      InStep definedDepth ∧
      ∀ back, ActsAsSpace definedDepth " one // \x27\n# two ".toList back := by
  have hbody : ¬ ['*', '/'] <:+: " one // \x27\n# two ".toList := by decide
  have hcode : modeAfter definedDepth = .code := by decide
  have hiff := (actsAsSpace_iff hbody hcode inStep_definedDepth).2 not_endsInDirective_definedDepth
  exact ⟨hbody, hcode, inStep_definedDepth,
    hiff.mpr (iff_of_true (by decide) endsFresh_definedDepth)⟩

/-- A comment of several lines, with a declaration in it. -/
def hiddenDeclaration : List Char :=
  " first\nenum Hidden \x7b H \x7d;\n".toList

/-- Behind a definition the declaration in the comment is read as code. -/
theorem not_actsAsSpace_hiddenDeclaration :
    ¬ ['*', '/'] <:+: hiddenDeclaration ∧ modeAfter "#define DEPTH 1 ".toList = .code ∧
      .word "Hidden" ∈
        lexemes ("#define DEPTH 1 ".toList ++ (blockComment hiddenDeclaration ++ ['\n'])) ∧
      ¬ ActsAsSpace "#define DEPTH 1 ".toList hiddenDeclaration ['\n'] := by
  unfold ActsAsSpace
  decide +kernel

end Enumerant.Header
