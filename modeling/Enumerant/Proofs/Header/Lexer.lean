import Enumerant.Proofs.Header.Cursor
import Enumerant.Proofs.Text.Decoding

/-!
# The lexer and the pieces of a header

What the lexer finds behind the blanks is a piece of the header, and it goes on behind the piece
(`exists_passes`). Only a character beyond the first 128 that nothing skips is taken apart, into one
token for each of its bytes (`tokenize_of_forall_le`). From this it follows, piece by piece, that
the tokens of a header are those of its pieces (`tokens_eq_located`).
-/

namespace Enumerant.Header

open Text

namespace Cursor

variable {c stop : Cursor} {as bs : List UInt8} {ch d : Char} {cs : List Char} {fresh : Bool}
  {kind : Piece.Kind} {more : Nat} {p : Piece}

/-! ### What stands at a cursor -/

/-- What stands at a cursor in front of a character, if that begins a piece of a kind which goes on
for a number of characters. -/
def found (d : Char) (cs : List Char) (c : Cursor) (piece : Piece.Kind × Nat) :
    Option Lexeme × Cursor :=
  let lexeme := match piece.1 with
    | .token l => some l
    | .strays => some (.stray d.toUInt8)
    | _ => none
  (lexeme, c.behind (d :: cs.take piece.2) (cs.drop piece.2))

theorem take_length_takeWhile (p : Char → Bool) (cs : List Char) :
    cs.take (cs.takeWhile p).length = cs.takeWhile p :=
  (List.prefix_iff_eq_take.mp (List.takeWhile_prefix p)).symm

theorem drop_length_takeWhile (p : Char → Bool) (cs : List Char) :
    cs.drop (cs.takeWhile p).length = cs.dropWhile p := by
  conv_lhs => arg 2; rw [← List.takeWhile_append_dropWhile (p := p) (l := cs)]
  exact List.drop_left

/-- In front of one of the first 128 characters the lexer finds what the piece is. -/
theorem lexeme?_of_faces (h : c.Faces (d :: cs)) (hd : d.toNat < 128)
    (hspace : ¬ isSpace d) (hhash : ¬ (d = '#' ∧ fresh)) :
    c.lexeme? d = c.found d cs (Piece.classify fresh d cs) := by
  have hnext : ∀ e : Char, e.toNat < 128 → (c.peekAt 1 = some e ↔ cs.head? = some e) :=
    fun e => h.peekAt_one_eq_some_iff hd
  rw [lexeme?, Piece.classify, if_neg hspace, if_neg hhash]
  simp only [hnext '/' (by decide), hnext '*' (by decide), hnext '<' (by decide),
    hnext '>' (by decide)]
  -- Both look at the next character but one in the same places, so the cases are the same.
  split_ifs with hremark hcomment hquote hdigit hword hleft hright
  · obtain ⟨rfl, hhead⟩ := hremark
    obtain ⟨cs, rfl⟩ := List.head?_eq_some_iff.mp hhead
    -- Two slashes are jumped over, and the run of the comment begins behind them.
    have hadvance := h.advance_two (by decide) (by decide) (by decide) (by decide)
    have hfaces : (c.advance 2).Faces cs := hadvance ▸ faces_behind _ _ c
    dsimp only [found, List.tail_cons]
    rw [textTo_passWhile isUniform_ne_newline (by decide) hfaces,
      passWhile_of_faces isUniform_ne_newline (by decide) hfaces, hadvance, behind_behind,
      List.take_succ_cons, List.drop_succ_cons, take_length_takeWhile, drop_length_takeWhile]
    rfl
  · obtain ⟨rfl, hhead⟩ := hcomment
    obtain ⟨cs, rfl⟩ := List.head?_eq_some_iff.mp hhead
    have hadvance := h.advance_two (by decide) (by decide) (by decide) (by decide)
    dsimp only [found, List.tail_cons]
    rw [skipComment, hadvance, closeComment_of_faces (faces_behind _ _ c), behind_behind,
      List.take_succ_cons, List.drop_succ_cons]
    rfl
  · dsimp only [found]
    rw [skipQuoted, h.bump_of_lt hd, closeQuoted_of_faces hd (faces_behind _ _ c), behind_behind]
    rfl
  -- Numbers and words begin with their first character, which is one of the run.
  · have halnum : d.isAlphanum := by simp [Char.isAlphanum, hdigit]
    dsimp only [found]
    rw [textTo_passWhile isUniform_isAlphanum (by decide) h,
      passWhile_of_faces isUniform_isAlphanum (by decide) h, take_length_takeWhile,
      drop_length_takeWhile, List.takeWhile_cons_of_pos halnum, List.dropWhile_cons_of_pos halnum]
  · have hchar : isWordChar d := isWordChar_of_isWordStart hword
    dsimp only [found]
    rw [textTo_passWhile isUniform_isWordChar (by decide) h,
      passWhile_of_faces isUniform_isWordChar (by decide) h, take_length_takeWhile,
      drop_length_takeWhile, List.takeWhile_cons_of_pos hchar, List.dropWhile_cons_of_pos hchar]
  · obtain ⟨rfl, hhead⟩ := hleft
    obtain ⟨cs, rfl⟩ := List.head?_eq_some_iff.mp hhead
    rw [h.advance_two (by decide) (by decide) (by decide) (by decide)]
    rfl
  · obtain ⟨rfl, hhead⟩ := hright
    obtain ⟨cs, rfl⟩ := List.head?_eq_some_iff.mp hhead
    rw [h.advance_two (by decide) (by decide) (by decide) (by decide)]
    rfl
  · rw [h.bump_of_lt hd]
    cases Punctuation.ofChar? d <;> rfl

/-! ### Steps -/

/-- A step gives its token, and the rest comes from where it ends. -/
theorem tokenize_of_step? {t : Option Token} (h : c.step? = some (t, stop)) :
    c.tokenize = t.toList ++ stop.tokenize := by
  rw [tokenize]
  grind

/-- The lexer stops where there is no step. -/
theorem tokenize_of_step?_eq_none (h : c.step? = none) : c.tokenize = [] := by
  rw [tokenize]
  grind

/-- Cursors with the same step have the same tokens. -/
theorem tokenize_congr (h : c.step? = stop.step?) : c.tokenize = stop.tokenize := by
  rcases hstep : stop.step? with - | ⟨t, next⟩
  · rw [tokenize_of_step?_eq_none (h.trans hstep), tokenize_of_step?_eq_none hstep]
  · rw [tokenize_of_step? (h.trans hstep), tokenize_of_step? hstep]

theorem step?_of_rest_eq_nil (h : c.rest = []) : c.step? = none := by
  rw [step?, skipBlanks_of_end (peek_eq_none h)]
  dsimp only
  rw [peek_eq_none h]
  rfl

/-- Blanks are passed over. -/
theorem step?_of_isSpace (h : c.peek = some ch) (hspace : isSpace ch) :
    c.step? = c.bump.step? := by
  rw [step?, skipBlanks_of_peek h, if_pos hspace]
  rfl

/-- On a fresh line a hash has the directive skipped. -/
theorem step?_of_hash (h : c.peek = some '#') (hfresh : c.fresh) :
    c.step? = some (none, c.skipDirective) := by
  rw [step?, skipBlanks_of_peek h, if_neg (by decide)]
  dsimp only
  rw [h, Option.map_some, if_pos ⟨rfl, hfresh⟩]

/-- Anything else gives its lexeme with the place where it stands. -/
theorem step?_of_lexeme? {lexeme : Option Lexeme} (h : c.peek = some ch) (hspace : ¬ isSpace ch)
    (hhash : ¬ (ch = '#' ∧ c.fresh))
    (hlexeme : { c with fresh := false }.lexeme? ch = (lexeme, stop)) :
    c.step? = some (lexeme.map fun l => ⟨l, c.line, c.pos, stop.pos, c.rest⟩, stop) := by
  rw [step?, skipBlanks_of_peek h, if_neg hspace]
  dsimp only
  rw [h, Option.map_some, if_neg hhash, hlexeme]

/-- Whether a line is fresh matters in front of a `#` only. -/
theorem step?_of_ne_hash (h : c.peek = some ch) (hspace : ¬ isSpace ch) (hhash : ch ≠ '#') :
    c.step? = { c with fresh := false }.step? := by
  have hpeek : { c with fresh := false }.peek = some ch := h
  rw [step?_of_lexeme? h hspace (fun hc => hhash hc.1) rfl,
    step?_of_lexeme? hpeek hspace (fun hc => hhash hc.1) rfl]

/-! ### Bytes beyond the first 128 -/

/-- Bytes from 128 on stand alone. -/
theorem standsAlone_of_le (fresh : Bool) (hch : 128 ≤ ch.toNat) : Piece.StandsAlone fresh ch where
  not_space := by rw [isSpace_iff]; omega
  not_hash := fun h => ne_of_le hch (by decide) h.1
  not_slash := ne_of_le hch (by decide)
  not_quote := by omega
  not_digit := by rw [isDigit_iff]; omega
  not_word := by rw [isWordStart_iff]; omega

theorem ofChar?_of_le (hch : 128 ≤ ch.toNat) : Punctuation.ofChar? ch = none := by
  unfold Punctuation.ofChar?
  split
  case h_18 => rfl
  all_goals exact absurd hch (by decide)

/-- Each of them is a stray of its own. -/
theorem lexeme?_of_le (hch : 128 ≤ ch.toNat) (c : Cursor) :
    c.lexeme? ch = (some (.stray ch.toUInt8), c.bump) := by
  obtain ⟨-, -, hslash, hquote, hdigit, hword⟩ := standsAlone_of_le false hch
  rw [lexeme?, if_neg fun h => hslash h.1, if_neg fun h => hslash h.1, if_neg hquote,
    if_neg hdigit, if_neg hword, if_neg fun h => ne_of_le hch (by decide) h.1,
    if_neg fun h => ne_of_le hch (by decide) h.1, ofChar?_of_le hch]

/-- Each byte beyond the first 128 is a token, if nothing skips it. -/
theorem tokenize_of_forall_le (hfresh : c.fresh = false) (h : c.rest = as ++ bs)
    (has : ∀ b ∈ as, 128 ≤ b.toNat) :
    c.tokenize =
      (as.mapIdx fun i b => ⟨.stray b, c.line, c.pos + i, c.pos + i + 1, c.rest.drop i⟩) ++
        (c.past as bs).tokenize := by
  induction as generalizing c with
  | nil =>
    rw [← show c.rest = bs from h, past_nil]
    rfl
  | cons a as ih =>
    obtain ⟨ha, has⟩ := List.forall_mem_cons.mp has
    have hch : 128 ≤ (Char.ofUInt8 a).toNat := by rwa [toNat_ofUInt8]
    have hline : [a].contains 10 = false ∧ [a].count 10 = 0 := by
      have hne : a ≠ 10 := by
        rintro rfl
        exact absurd ha (by decide)
      simp [hne, Ne.symm hne]
    -- No byte of a character beyond ASCII is one of those that the lexer looks for.
    have hlexeme : { c with fresh := false }.lexeme? (Char.ofUInt8 a) =
        (some (.stray a), c.past [a] (as ++ bs)) := by
      have hsame : { c with fresh := false } = c := by rw [← hfresh]
      have hbyte : (Char.ofUInt8 a).toUInt8 = a := UInt8.toUInt8_toUInt32 a
      rw [hsame, lexeme?_of_le hch, hbyte, bump_of_rest h]
      rfl
    have hstep := step?_of_lexeme? (peek_of_rest h) (standsAlone_of_le false hch).not_space
      (fun hc => ne_of_le hch (by decide) hc.1) hlexeme
    have hfresh' : (c.past [a] (as ++ bs)).fresh = false := by
      rw [past, hfresh, hline.1, Bool.or_self]
    rw [tokenize_of_step? hstep, ih hfresh' rfl has, past_past, h, List.mapIdx_cons]
    simp only [past, hline.2, List.length_singleton, Nat.add_assoc, Nat.add_comm 1,
      Nat.add_zero, List.drop_zero]
    rfl

/-! ### Pieces -/

/-- The second cursor is where the first one gets by passing a piece, in front of a text. -/
structure Passes (c : Cursor) (p : Piece) (cs : List Char) (stop : Cursor) : Prop where
  faces : stop.Faces cs
  pos : stop.pos = c.pos + byteLength p.text
  line : stop.line = c.line + p.text.count '\n'
  fresh : stop.fresh = p.leavesFresh c.fresh

theorem passes_behind (h : p.leavesFresh c.fresh = (fresh || p.text.contains '\n'))
    (cs : List Char) : c.Passes p cs ({ c with fresh := fresh }.behind p.text cs) where
  faces := faces_behind _ _ _
  pos := by rw [← length_flatMap_utf8EncodeChar]; rfl
  line := by rw [← count_flatMap_utf8EncodeChar]; rfl
  fresh := by rw [h, ← contains_flatMap_utf8EncodeChar]; rfl

/-- Blanks and directives leave a line fresh that was so. -/
theorem passes_behind_of_eq (h : p.kind = .blank ∨ p.kind = .directive) (cs : List Char) :
    c.Passes p cs (c.behind p.text cs) := by
  refine passes_behind ?_ cs
  rcases h with h | h <;> simp [Piece.leavesFresh, h, Bool.or_comm]

/-- All other pieces do not, but for a line break within them. -/
theorem passes_behind_of_ne (hblank : p.kind ≠ .blank) (hdirective : p.kind ≠ .directive)
    (cs : List Char) : c.Passes p cs ({ c with fresh := false }.behind p.text cs) :=
  passes_behind (by simp [Piece.leavesFresh, hblank, hdirective]) cs

/-- Only blanks are blank, and only a hash opens a directive. -/
theorem classify_fst_ne (hspace : ¬ isSpace d) (hhash : ¬ (d = '#' ∧ fresh))
    (h : Piece.classify fresh d cs = (kind, more)) : kind ≠ .blank ∧ kind ≠ .directive := by
  rw [← show (Piece.classify fresh d cs).1 = kind from congrArg Prod.fst h, Piece.classify,
    if_neg hspace, if_neg hhash]
  split_ifs
  case neg => cases Punctuation.ofChar? d <;> simp
  all_goals simp

/-- A stray is one character. -/
theorem eq_zero_of_classify_strays (h : Piece.classify fresh d cs = (.strays, more)) :
    more = 0 := by
  rw [Piece.classify] at h
  split_ifs at h
  case neg => cases hmark : Punctuation.ofChar? d <;> simp_all
  all_goals simp at h

/-- What is found in front of a piece is the token of the piece, or nothing. -/
theorem toList_found (hd : d.toNat < 128) (h : Piece.classify fresh d cs = (kind, more)) :
    ((c.found d cs (kind, more)).1.map fun l =>
      (⟨l, c.line, c.pos, (c.found d cs (kind, more)).2.pos, c.rest⟩ : Token)).toList =
        (⟨kind, d :: cs.take more⟩ : Piece).tokens c.pos c.line c.rest := by
  have hpos : (c.found d cs (kind, more)).2.pos = c.pos + byteLength (d :: cs.take more) := by
    rw [← length_flatMap_utf8EncodeChar]
    rfl
  cases kind with
  | token l => rw [hpos]; rfl
  | strays =>
    obtain rfl := eq_zero_of_classify_strays h
    simp only [found, Piece.tokens, List.take_zero, List.flatMap_singleton,
      utf8EncodeChar_of_lt hd, behind, past]
    rfl
  | _ => rfl

/-- A piece that begins with one of the first 128 characters is found by one step, or it is a blank
that the step skips. -/
theorem exists_passes_of_lt (h : c.Faces (d :: cs)) (hd : d.toNat < 128)
    (hpiece : Piece.classify c.fresh d cs = (kind, more)) :
    ∃ stop : Cursor, c.Passes ⟨kind, d :: cs.take more⟩ (cs.drop more) stop ∧
      c.tokenize =
        (⟨kind, d :: cs.take more⟩ : Piece).tokens c.pos c.line c.rest ++ stop.tokenize := by
  have hpeek := h.peek_of_lt hd
  by_cases hspace : isSpace d
  · rw [Piece.classify_space hspace] at hpiece
    cases hpiece
    refine ⟨_, passes_behind_of_eq (.inl rfl) cs, ?_⟩
    rw [tokenize_congr (step?_of_isSpace hpeek hspace), h.bump_of_lt hd]
    rfl
  by_cases hhash : d = '#' ∧ c.fresh
  · obtain ⟨rfl, hfresh⟩ := hhash
    rw [hfresh, Piece.classify_hash] at hpiece
    cases hpiece
    have hextent : directiveExtent ('#' :: cs) = directiveExtent cs + 1 := by
      simp [directiveExtent_cons]
    refine ⟨_, passes_behind_of_eq (.inr rfl) _, ?_⟩
    rw [tokenize_of_step? (step?_of_hash hpeek hfresh), skipDirective_of_faces h, hextent]
    rfl
  · obtain ⟨hblank, hdirective⟩ := classify_fst_ne hspace hhash hpiece
    refine ⟨_, passes_behind_of_ne hblank hdirective _, ?_⟩
    have hfound : { c with fresh := false }.lexeme? d =
        { c with fresh := false }.found d cs (kind, more) :=
      hpiece ▸ lexeme?_of_faces (c := { c with fresh := false }) h hd hspace hhash
    rw [tokenize_of_step? (step?_of_lexeme? hpeek hspace hhash hfound)]
    exact congrArg (· ++ _) (toList_found (c := { c with fresh := false }) hd hpiece)

/-- A character beyond the first 128 is a piece whose bytes are found one by one. -/
theorem exists_passes_of_le (h : c.Faces (d :: cs)) (hd : 128 ≤ d.toNat)
    (hpiece : Piece.classify c.fresh d cs = (kind, more)) :
    ∃ stop : Cursor, c.Passes ⟨kind, d :: cs.take more⟩ (cs.drop more) stop ∧
      c.tokenize =
        (⟨kind, d :: cs.take more⟩ : Piece).tokens c.pos c.line c.rest ++ stop.tokenize := by
  obtain ⟨ch, hch, hle⟩ := h.exists_peek_of_le hd
  rw [Piece.classify_of_standsAlone (standsAlone_of_le _ hd), ofChar?_of_le hd,
    if_neg fun h => ne_of_le hd (by decide) h.1, if_neg fun h => ne_of_le hd (by decide) h.1]
    at hpiece
  cases hpiece
  refine ⟨_, passes_behind_of_ne (by simp) (by simp) cs, ?_⟩
  have hspace := (standsAlone_of_le false hle).not_space
  have hrest : { c with fresh := false }.rest =
      String.utf8EncodeChar d ++ cs.flatMap String.utf8EncodeChar := h
  rw [tokenize_congr (step?_of_ne_hash hch hspace (ne_of_le hle (by decide))),
    tokenize_of_forall_le rfl hrest fun b hb => le_of_mem_utf8EncodeChar hd hb]
  simp only [Piece.tokens, behind, List.flatMap_singleton, List.take_zero]

/-- From a cursor in front of a piece on, there are the tokens of the piece and those from a cursor
on that has passed it. -/
theorem exists_passes (h : c.Faces (d :: cs))
    (hpiece : Piece.classify c.fresh d cs = (kind, more)) :
    ∃ stop : Cursor, c.Passes ⟨kind, d :: cs.take more⟩ (cs.drop more) stop ∧
      c.tokenize =
        (⟨kind, d :: cs.take more⟩ : Piece).tokens c.pos c.line c.rest ++ stop.tokenize :=
  (Nat.lt_or_ge d.toNat 128).elim (fun hd => exists_passes_of_lt h hd hpiece)
    fun hd => exists_passes_of_le h hd hpiece

/-- The induction is on the division of the text; what it carries along is that the cursor is in
front of the text, never within a character. -/
theorem tokenize_eq_located :
    ∀ c : Cursor, c.Faces cs → c.fresh = fresh →
      c.tokenize = located c.pos c.line [] (Piece.split fresh cs) := by
  fun_induction Piece.split fresh cs with
  | case1 fresh =>
    intro c h hfresh
    rw [tokenize_of_step?_eq_none (step?_of_rest_eq_nil h)]
    rfl
  | case2 fresh d cs kind more hpiece piece ih =>
    rintro c h rfl
    obtain ⟨stop, hstop, htokens⟩ := exists_passes h hpiece
    rw [htokens, located, ih stop hstop.faces hstop.fresh, hstop.pos, hstop.line,
      List.flatMap_cons, Piece.flatMap_text_split, List.append_nil, List.cons_append,
      List.take_append_drop, ← h]

end Cursor

/-- **The tokens of a header are those of its pieces**: nothing that the lexer skips, or reads, ends
within a character. -/
theorem tokens_eq_located (text : List Char) :
    tokens text = located 0 1 [] (Piece.split true text) :=
  Cursor.tokenize_eq_located { rest := text.flatMap String.utf8EncodeChar } rfl rfl

end Enumerant.Header
