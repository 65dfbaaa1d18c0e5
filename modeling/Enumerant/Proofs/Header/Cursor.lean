import Enumerant.Proofs.Header.Piece
import Enumerant.Proofs.Text.Offset

/-!
# The loops of the lexer

The lexer goes byte by byte. Its loops look for characters among the first 128 only, and the bytes
of all others are none of these, so that a loop which passes one such byte passes them all
(`PassesHigh.past`). Hence a loop that begins in front of a text (`Cursor.Faces`) ends behind a
whole number of its characters, and in front of the others: as many as the piece of the header is
long. This holds of a backslash in a quoted text, too, which takes one byte along and not a
character (`closeQuoted_of_faces`).

In any case the cursor has counted what it passed, the bytes and the line breaks among them
(`Cursor.past`), be it by one byte at a time or in one go.
-/

namespace Enumerant.Header

open Text

namespace Cursor

variable {α : Type} {c : Cursor} {as bs rest rest' : List UInt8} {b : UInt8} {ch d : Char}
  {cs : List Char} {p : Char → Bool}

/-! ### Cursors behind bytes -/

/-- The cursor behind some bytes and in front of others: it has counted the bytes that it passed and
the line breaks among them. -/
def past (bs rest : List UInt8) (c : Cursor) : Cursor :=
  ⟨rest, c.pos + bs.length, c.line + bs.count 10, c.fresh || bs.contains 10⟩

/-- Nothing is passed where a cursor stays. -/
theorem past_nil (c : Cursor) : c.past [] c.rest = c := by
  simp [past]

/-- What is passed in two parts is passed at once. -/
theorem past_past (c : Cursor) :
    (c.past as rest).past bs rest' = c.past (as ++ bs) rest' := by
  simp [past, Nat.add_assoc, Bool.or_assoc]

/-- One step passes one byte. -/
theorem bump_of_rest (h : c.rest = b :: bs) : c.bump = c.past [b] bs := by
  simp only [bump, h, past]
  by_cases hb : b = 10
  · simp [hb]
  · simp [hb, Ne.symm hb]

/-- Bytes may be passed in one go if no line ends among them. -/
theorem advance_of_rest (h : c.rest = as ++ bs) (has : 10 ∉ as) :
    c.advance as.length = c.past as bs := by
  simp [advance, past, h, has, List.count_eq_zero.mpr has]

/-- The next byte is seen as the character with its number. -/
theorem peek_of_rest (h : c.rest = b :: bs) : c.peek = some (Char.ofUInt8 b) := by
  simp [peek, peekAt, h]

theorem peek_eq_none (h : c.rest = []) : c.peek = none := by
  simp [peek, peekAt, h]

/-! ### Bytes beyond the first 128 -/

/-- A byte is seen as the character with the same number. -/
theorem toNat_ofUInt8 (b : UInt8) : (Char.ofUInt8 b).toNat = b.toNat :=
  UInt8.toNat_toUInt32 b

/-- The bytes of characters beyond the first 128 are seen as none of these. -/
theorem ne_of_le (hch : 128 ≤ ch.toNat) (hd : d.toNat < 128) : ch ≠ d := by
  rintro rfl
  omega

/-- Something does not tell a cursor in front of a byte beyond the first 128 from the one behind. -/
def PassesHigh (f : Cursor → α) : Prop :=
  ∀ c ch, c.peek = some ch → 128 ≤ ch.toNat → f c = f c.bump

/-- A loop that passes one byte from 128 on passes any number of them. -/
theorem PassesHigh.past {f : Cursor → α} (hf : PassesHigh f) (h : c.rest = as ++ bs)
    (has : ∀ b ∈ as, 128 ≤ b.toNat) : f c = f (c.past as bs) := by
  induction as generalizing c with
  | nil => rw [← show c.rest = bs from h, past_nil]
  | cons a as ih =>
    obtain ⟨ha, has⟩ := List.forall_mem_cons.mp has
    rw [hf c _ (peek_of_rest h) (by rwa [toNat_ofUInt8]), bump_of_rest h, ih rfl has, past_past]
    rfl

/-- Directives go on over such bytes. -/
theorem passesHigh_skipDirective : PassesHigh skipDirective := by
  intro c ch h hch
  rw [skipDirective_of_peek h, if_neg fun hc => ne_of_le hch (by decide) hc.1,
    if_neg (ne_of_le hch (by decide))]

/-- Comments go on over such bytes. -/
theorem passesHigh_closeComment : PassesHigh closeComment := by
  intro c ch h hch
  rw [closeComment_of_peek h, if_neg fun hc => ne_of_le hch (by decide) hc.1]

/-- Quoted texts go on over such bytes. -/
theorem passesHigh_closeQuoted {quote : Char} (hquote : quote.toNat < 128) :
    PassesHigh (closeQuoted quote) := by
  intro c ch h hch
  rw [closeQuoted_of_peek quote h, if_neg (ne_of_le hch (by decide)),
    if_neg (not_or_intro (ne_of_le hch hquote) (ne_of_le hch (by decide)))]

/-- Runs go on over such bytes if what they look for holds of all of them. -/
theorem passesHigh_passWhile (hp : ∀ ch : Char, 128 ≤ ch.toNat → p ch) :
    PassesHigh (passWhile p) := by
  intro c ch h hch
  obtain ⟨b, bs, hrest⟩ := List.exists_cons_of_length_pos (length_rest_pos h)
  have hb : 10 ∉ [b] := by
    rw [List.mem_singleton]
    rintro rfl
    rw [peek_of_rest hrest, Option.some_inj] at h
    subst h
    exact absurd hch (by decide)
  rw [passWhile_of_peek p h, if_pos (hp ch hch), bump_of_rest hrest,
    ← @advance_of_rest c [b] bs hrest hb]
  rfl

/-! ### Cursors in front of texts -/

/-- A cursor is in front of a text, and not within a character. -/
def Faces (c : Cursor) (cs : List Char) : Prop :=
  c.rest = cs.flatMap String.utf8EncodeChar

/-- The cursor behind a text and in front of another. -/
def behind (as cs : List Char) (c : Cursor) : Cursor :=
  c.past (as.flatMap String.utf8EncodeChar) (cs.flatMap String.utf8EncodeChar)

/-- Behind a part of a text a cursor faces the others. -/
theorem faces_behind (as cs : List Char) (c : Cursor) : (c.behind as cs).Faces cs :=
  rfl

/-- Behind nothing a cursor is where it was. -/
theorem behind_nil (h : c.Faces cs) : c.behind [] cs = c := by
  rw [behind, ← h, List.flatMap_nil, past_nil]

/-- A text may be passed in two parts. -/
theorem behind_behind (xs ys zs zs' : List Char) (c : Cursor) :
    (c.behind xs zs).behind ys zs' = c.behind (xs ++ ys) zs' := by
  rw [behind, behind, past_past, ← List.flatMap_append]
  rfl

/-- Each of the first 128 characters is one byte. -/
theorem Faces.rest_of_lt (h : c.Faces (d :: cs)) (hd : d.toNat < 128) :
    c.rest = d.toUInt8 :: cs.flatMap String.utf8EncodeChar := by
  rw [h, List.flatMap_cons, utf8EncodeChar_of_lt hd]
  rfl

/-- Such a character is seen as it is. -/
theorem Faces.peek_of_lt (h : c.Faces (d :: cs)) (hd : d.toNat < 128) : c.peek = some d := by
  rw [peek_of_rest (h.rest_of_lt hd), ofUInt8_toUInt8 hd]

/-- One step passes such a character. -/
theorem Faces.bump_of_lt (h : c.Faces (d :: cs)) (hd : d.toNat < 128) :
    c.bump = c.behind [d] cs := by
  rw [bump_of_rest (h.rest_of_lt hd), behind, List.flatMap_singleton, utf8EncodeChar_of_lt hd]

/-- So does a jump, which counts no line. -/
theorem Faces.advance_one (h : c.Faces (d :: cs)) (hd : d.toNat < 128) (hline : d ≠ '\n') :
    c.advance 1 = c.behind [d] cs := by
  have hbyte : 10 ∉ [d.toUInt8] := by
    rw [List.mem_singleton]
    intro hten
    exact hline (by rw [← ofUInt8_toUInt8 hd, ← hten]; rfl)
  rw [behind, List.flatMap_singleton, utf8EncodeChar_of_lt hd]
  exact advance_of_rest (h.rest_of_lt hd) hbyte

/-- A jump may pass two such characters. -/
theorem Faces.advance_two {e : Char} (h : c.Faces (d :: e :: cs)) (hd : d.toNat < 128)
    (hdline : d ≠ '\n') (he : e.toNat < 128) (heline : e ≠ '\n') :
    c.advance 2 = c.behind [d, e] cs := by
  have htwo : c.advance 2 = (c.advance 1).advance 1 := by simp [advance, Nat.add_assoc]
  rw [htwo, h.advance_one hd hdline, (faces_behind _ _ c).advance_one he heline, behind_behind]
  rfl

/-- In front of a character beyond the first 128 the cursor is in front of a byte beyond them. -/
theorem Faces.exists_peek_of_le (h : c.Faces (d :: cs)) (hd : 128 ≤ d.toNat) :
    ∃ ch, c.peek = some ch ∧ 128 ≤ ch.toNat := by
  obtain ⟨b, bs, hb⟩ := List.exists_cons_of_ne_nil (String.utf8EncodeChar_ne_nil (c := d))
  have hrest : c.rest = b :: (bs ++ cs.flatMap String.utf8EncodeChar) := by
    rw [h, List.flatMap_cons, hb]
    rfl
  refine ⟨_, peek_of_rest hrest, ?_⟩
  rw [toNat_ofUInt8]
  exact le_of_mem_utf8EncodeChar hd (hb ▸ List.mem_cons_self)

/-- A byte in front of a cursor is a character among the first 128 exactly if that character is. -/
theorem Faces.peek_eq_some_iff (h : c.Faces cs) (hd : d.toNat < 128) :
    c.peek = some d ↔ cs.head? = some d := by
  rcases cs with - | ⟨e, cs⟩
  · simp [peek_eq_none h]
  rcases Nat.lt_or_ge e.toNat 128 with he | he
  · rw [h.peek_of_lt he, List.head?_cons]
  · obtain ⟨ch, hch, hle⟩ := h.exists_peek_of_le he
    simp [hch, ne_of_le hle hd, ne_of_le he hd]

/-- The byte after next is the next one after a step. -/
theorem peekAt_one (h : c.rest = b :: bs) : c.peekAt 1 = c.bump.peek := by
  rw [bump_of_rest h]
  simp [peek, peekAt, past, h]

/-- Behind one of the first 128 characters the byte after next begins the next character. -/
theorem Faces.peekAt_one_eq_some_iff {e : Char} (h : c.Faces (e :: cs)) (he : e.toNat < 128)
    (hd : d.toNat < 128) : c.peekAt 1 = some d ↔ cs.head? = some d := by
  rw [peekAt_one (h.rest_of_lt he), h.bump_of_lt he]
  exact (faces_behind [e] cs c).peek_eq_some_iff hd

/-- A loop that passes bytes beyond the first 128 goes on behind a character, once it has passed the
first byte of it. -/
theorem PassesHigh.bump {f : Cursor → α} (hf : PassesHigh f) (h : c.Faces (d :: cs)) :
    f c.bump = f (c.behind [d] cs) := by
  rcases Nat.lt_or_ge d.toNat 128 with hd | hd
  · rw [h.bump_of_lt hd]
  obtain ⟨b, bs, hb⟩ := List.exists_cons_of_ne_nil (String.utf8EncodeChar_ne_nil (c := d))
  have hhigh : ∀ b ∈ bs, 128 ≤ b.toNat := fun b' hb' =>
    le_of_mem_utf8EncodeChar hd (hb ▸ List.mem_cons_of_mem _ hb')
  have hrest : c.rest = b :: (bs ++ cs.flatMap String.utf8EncodeChar) := by
    rw [h, List.flatMap_cons, hb]
    rfl
  rw [bump_of_rest hrest, hf.past rfl hhigh, past_past, behind, List.flatMap_singleton, hb]
  rfl

/-! ### The loops -/

theorem skipBlanks_of_end (h : c.peek = none) : c.skipBlanks = c := by
  rw [skipBlanks]
  grind

theorem skipDirective_of_end (h : c.peek = none) : c.skipDirective = c := by
  rw [skipDirective]
  grind

theorem closeComment_of_end (h : c.peek = none) : c.closeComment = c := by
  rw [closeComment]
  grind

theorem closeQuoted_of_end (quote : Char) (h : c.peek = none) : c.closeQuoted quote = c := by
  rw [closeQuoted]
  grind

theorem passWhile_of_end (p : Char → Bool) (h : c.peek = none) : c.passWhile p = c := by
  rw [passWhile]
  grind

/-- A directive is passed up to the end of its piece. -/
theorem skipDirective_of_faces (h : c.Faces cs) :
    c.skipDirective = c.behind (cs.take (directiveExtent cs)) (cs.drop (directiveExtent cs)) := by
  fun_induction directiveExtent cs generalizing c with
  | case1 cs ih =>
    rw [skipDirective_of_peek (h.peek_of_lt (by decide)),
      if_pos ⟨rfl, (h.peekAt_one_eq_some_iff (by decide) (by decide)).mpr rfl⟩,
      h.bump_of_lt (by decide), (faces_behind _ _ c).bump_of_lt (by decide), behind_behind,
      ih (faces_behind _ _ c), behind_behind]
    rfl
  | case2 cs hne =>
    rw [skipDirective_of_peek (h.peek_of_lt (by decide)), if_neg (by simp), if_pos rfl]
    exact (behind_nil h).symm
  | case3 d cs hne hline ih =>
    have hnext : c.skipDirective = c.bump.skipDirective := by
      rcases Nat.lt_or_ge d.toNat 128 with hd | hd
      · have hnot : ¬ (d = '\\' ∧ c.peekAt 1 = some '\n') := by
          rintro ⟨rfl, hpeek⟩
          rw [h.peekAt_one_eq_some_iff hd (by decide)] at hpeek
          obtain ⟨cs', rfl⟩ := List.head?_eq_some_iff.mp hpeek
          exact hne cs' rfl rfl
        rw [skipDirective_of_peek (h.peek_of_lt hd), if_neg hnot, if_neg hline]
      · obtain ⟨ch, hch, hle⟩ := h.exists_peek_of_le hd
        exact passesHigh_skipDirective c ch hch hle
    rw [hnext, passesHigh_skipDirective.bump h, ih (faces_behind _ _ c), behind_behind]
    rfl
  | case4 =>
    rw [skipDirective_of_end (peek_eq_none h)]
    exact (behind_nil h).symm

/-- A comment is passed up to the end of its piece. -/
theorem closeComment_of_faces (h : c.Faces cs) :
    c.closeComment = c.behind (cs.take (commentExtent cs)) (cs.drop (commentExtent cs)) := by
  fun_induction commentExtent cs generalizing c with
  | case1 cs =>
    have hslash : (c.behind ['*'] ('/' :: cs)).Faces ('/' :: cs) := faces_behind _ _ c
    rw [closeComment_of_peek (h.peek_of_lt (by decide)), h.bump_of_lt (by decide),
      if_pos ⟨rfl, hslash.peek_of_lt (by decide)⟩, hslash.advance_one (by decide) (by decide),
      behind_behind]
    rfl
  | case2 d cs hne ih =>
    have hnext : c.closeComment = c.bump.closeComment := by
      rcases Nat.lt_or_ge d.toNat 128 with hd | hd
      · have hnot : ¬ (d = '*' ∧ c.bump.peek = some '/') := by
          rintro ⟨rfl, hpeek⟩
          rw [h.bump_of_lt hd, (faces_behind _ _ c).peek_eq_some_iff (by decide)] at hpeek
          obtain ⟨cs', rfl⟩ := List.head?_eq_some_iff.mp hpeek
          exact hne cs' rfl rfl
        rw [closeComment_of_peek (h.peek_of_lt hd), if_neg hnot]
      · obtain ⟨ch, hch, hle⟩ := h.exists_peek_of_le hd
        exact passesHigh_closeComment c ch hch hle
    rw [hnext, passesHigh_closeComment.bump h, ih (faces_behind _ _ c), behind_behind]
    rfl
  | case3 =>
    rw [closeComment_of_end (peek_eq_none h)]
    exact (behind_nil h).symm

/-- A backslash at the end of the header takes nothing along. -/
theorem closeQuoted_of_faces_backslash (quote : Char) (h : c.Faces ['\\']) :
    c.closeQuoted quote = c.behind ['\\'] [] := by
  rw [closeQuoted_of_peek quote (h.peek_of_lt (by decide)), if_pos rfl, h.bump_of_lt (by decide)]
  exact closeQuoted_of_end quote rfl

/-- The byte that a backslash takes along is the first one of a character, of which the loop passes
the others. -/
theorem closeQuoted_of_faces {quote : Char} (hquote : quote.toNat < 128) (h : c.Faces cs) :
    c.closeQuoted quote =
      c.behind (cs.take (quotedExtent quote cs)) (cs.drop (quotedExtent quote cs)) := by
  fun_induction quotedExtent quote cs generalizing c with
  | case1 d cs ih =>
    -- Behind the backslash the first byte is taken, and the others of its character are passed.
    have hescaped : (c.behind ['\\'] (d :: cs)).Faces (d :: cs) := faces_behind _ _ c
    rw [closeQuoted_of_peek quote (h.peek_of_lt (by decide)), if_pos rfl,
      h.bump_of_lt (by decide), (passesHigh_closeQuoted hquote).bump hescaped, behind_behind,
      ih (faces_behind _ _ c), behind_behind]
    rfl
  | case2 d cs hne hstop =>
    by_cases hd : d = '\\'
    · subst hd
      rcases cs with - | ⟨e, cs⟩
      · exact closeQuoted_of_faces_backslash quote h
      · exact absurd rfl (hne e cs rfl)
    · have hlt : d.toNat < 128 := by rcases hstop with rfl | rfl; exacts [hquote, by decide]
      rw [closeQuoted_of_peek quote (h.peek_of_lt hlt), if_neg hd, if_pos hstop, h.bump_of_lt hlt]
      rfl
  | case3 d cs hne hstop ih =>
    by_cases hd : d = '\\'
    · subst hd
      rcases cs with - | ⟨e, cs⟩
      · exact closeQuoted_of_faces_backslash quote h
      · exact absurd rfl (hne e cs rfl)
    -- A character that ends nothing is passed byte by byte.
    have hnext : c.closeQuoted quote = c.bump.closeQuoted quote := by
      rcases Nat.lt_or_ge d.toNat 128 with hlt | hle
      · rw [closeQuoted_of_peek quote (h.peek_of_lt hlt), if_neg hd, if_neg hstop]
      · obtain ⟨ch, hch, hle⟩ := h.exists_peek_of_le hle
        exact passesHigh_closeQuoted hquote c ch hch hle
    rw [hnext, (passesHigh_closeQuoted hquote).bump h, ih (faces_behind _ _ c), behind_behind]
    rfl
  | case4 =>
    rw [closeQuoted_of_end quote (peek_eq_none h)]
    exact (behind_nil h).symm

/-- A kind of characters that those beyond the first 128 all are of or none is. -/
def IsUniform (p : Char → Bool) : Prop :=
  ∀ d e : Char, 128 ≤ d.toNat → 128 ≤ e.toNat → p d = p e

theorem isUniform_ne_newline : IsUniform (· != '\n') := fun _ _ hd he =>
  (bne_iff_ne.mpr (ne_of_le hd (by decide))).trans (bne_iff_ne.mpr (ne_of_le he (by decide))).symm

theorem isUniform_isAlphanum : IsUniform Char.isAlphanum := by
  intro d e hd he
  rw [Bool.eq_iff_iff, isAlphanum_iff, isAlphanum_iff]
  omega

theorem isUniform_isWordChar : IsUniform isWordChar := by
  intro d e hd he
  rw [Bool.eq_iff_iff, isWordChar_iff, isWordChar_iff]
  omega

/-- A run is passed as far as its characters go. -/
theorem passWhile_of_faces (hp : IsUniform p) (hline : p '\n' = false) (h : c.Faces cs) :
    c.passWhile p = c.behind (cs.takeWhile p) (cs.dropWhile p) := by
  induction cs generalizing c with
  | nil =>
    rw [passWhile_of_end p (peek_eq_none h)]
    exact (behind_nil h).symm
  | cons d cs ih =>
    rcases Nat.lt_or_ge d.toNat 128 with hd | hd
    · rw [passWhile_of_peek p (h.peek_of_lt hd), List.takeWhile_cons, List.dropWhile_cons]
      cases hpd : p d with
      | false => exact (behind_nil h).symm
      | true =>
        have hne : d ≠ '\n' := by
          rintro rfl
          exact Bool.false_ne_true (hline.symm.trans hpd)
        rw [if_pos rfl, h.advance_one hd hne, ih (faces_behind _ _ c), behind_behind]
        rfl
    · obtain ⟨ch, hch, hle⟩ := h.exists_peek_of_le hd
      rw [List.takeWhile_cons, List.dropWhile_cons]
      cases hpd : p d with
      | false =>
        rw [passWhile_of_peek p hch, hp ch d hle hd, hpd]
        exact (behind_nil h).symm
      | true =>
        have hpass : PassesHigh (passWhile p) :=
          passesHigh_passWhile fun e he => (hp e d he hd).trans hpd
        rw [hpass c ch hch hle, hpass.bump h, ih (faces_behind _ _ c), behind_behind]
        rfl

/-- The text from a cursor to one behind a text is the text. -/
theorem textTo_behind {as : List Char} (h : c.Faces (as ++ cs)) :
    c.textTo (c.behind as cs) = as := by
  have hpos : (c.behind as cs).pos - c.pos = (as.flatMap String.utf8EncodeChar).length :=
    Nat.add_sub_cancel_left _ _
  rw [textTo, hpos, h, List.flatMap_append, List.take_left, decode?_eq_some_iff.mpr rfl]
  rfl

/-- The text of a run is that of its characters. -/
theorem textTo_passWhile (hp : IsUniform p) (hline : p '\n' = false) (h : c.Faces cs) :
    c.textTo (c.passWhile p) = cs.takeWhile p := by
  rw [passWhile_of_faces hp hline h]
  rw [← List.takeWhile_append_dropWhile (p := p) (l := cs)] at h
  exact textTo_behind h

end Cursor

end Enumerant.Header
