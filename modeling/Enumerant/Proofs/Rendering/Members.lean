import Enumerant.Proofs.Header.LiteralText
import Enumerant.Proofs.Header.Passing
import Enumerant.Proofs.Text.Trimming
import Enumerant.Rendering

/-!
# Reading back members

The line that declares a member is read back as that member: its name, a value that its text stands
for, and its comment without the blanks around it (`readsBack_memberLine`). The text of a value is a
word or a number, possibly behind a minus sign (`ReadsAs`). Lines one after another are read back as
their members in order (`exists_divides_members`), given that no comment follows the last line.
-/

namespace Enumerant

open Text Header

namespace Rendering

variable {name text : String} {value : Initializer} {comment : Option String} {m : Member}
  {ts us : List Token} {t : Token} {ps : List Piece} {last line offset : Nat}
  {rest behind : List Char}

/-! ### Values -/

/-- A lexeme that a value is made of. -/
def isPlain : Lexeme → Bool
  | .word _ | .integer _ | .mark .minus => true
  | _ => false

/-- A text is divided, in front of a comma, into pieces on one line that are read as a value. -/
def ReadsAs (text : String) (value : Initializer) : Prop :=
  ∀ rest, ∃ ps, Piece.Divides text (',' :: rest) ps ∧ '\n' ∉ text.toList ∧
    (∀ l ∈ ps.flatMap Piece.lexemes, isPlain l) ∧
    ∀ offset line behind, ∃ first more,
      located offset line behind ps = first :: more ∧ classify first more = value

theorem not_mem_of_isWord {cs : List Char} (h : ∀ c ∈ cs, isWordChar c) : '\n' ∉ cs :=
  fun hmem => absurd (h _ hmem) (by decide)

theorem readsAs_word (h : IsWord name.toList) : ReadsAs name (.reference name) := by
  intro rest
  refine ⟨_, .word h (by rintro d ⟨⟩; rfl), not_mem_of_isWord h.2, by simp [Piece.lexemes, isPlain],
    fun offset line behind => ⟨_, [], rfl, rfl⟩⟩

theorem collapsed_of_forall {cs : List Char} (h : ∀ c ∈ cs, isBlank c = false) (hne : cs ≠ []) :
    collapsed cs = cs := by
  rw [collapsed_eq_squeeze (blankAfter_of_forall h hne), squeeze_of_forall h]

/-- Pieces from one token to another that are a constant expression without blanks are read as it.
-/
theorem classify_of_pieces {v : Int} {p q : Piece} {l l' : Lexeme} {mid : List Piece}
    (ps mid' : List Piece) (hfirst : ps = p :: mid) (hp : p.kind = .token l) (hl : l.isSolid)
    (hlast : ps = mid' ++ [q]) (hq : q.kind = .token l') (hl' : l'.isSolid)
    (hv : constant? (ps.flatMap Piece.lexemes) = some v)
    (hblank : ∀ c ∈ ps.flatMap Piece.text, isBlank c = false)
    (hne : ps.flatMap Piece.text ≠ []) (offset line : Nat) (behind : List Char) :
    ∃ first more, located offset line behind ps = first :: more ∧
      classify first more = .literal v (String.ofList (ps.flatMap Piece.text)) := by
  have hlexemes := map_lexeme_located offset line behind ps
  rcases hts : located offset line behind ps with - | ⟨first, more⟩
  · simp [hfirst, located, Piece.tokens, hp] at hts
  have hsolid : ∀ t ∈ first :: more, t.lexeme.isSolid := by
    intro t ht
    rcases exists_of_constant? hv (hlexemes ▸ hts ▸ List.mem_map_of_mem ht) with ⟨w, hw⟩ | ⟨r, hr⟩
    · rw [hw]
      rfl
    · rw [hr]
      rfl
  have htext := textBetween?_of_ends hfirst (Piece.isSolid_of_kind hp hl) hlast
    (Piece.isSolid_of_kind hq hl')
    ((congrArg (List.filter _) hts).trans (List.filter_eq_self.mpr hsolid))
  refine ⟨first, more, rfl, ?_⟩
  rw [hts] at hlexemes
  rw [← hlexemes] at hv
  -- The tokens have a value, so they are no name, and the literal has that value.
  rcases classify_cases first more with ⟨name, hname, -⟩ | ⟨w, hw, hclass⟩ | ⟨hnone, -⟩
  · rw [hname] at hv
    cases hv
  · rw [hclass, sourceText, htext, Option.getD_some, collapsed_of_forall hblank hne]
    obtain rfl := Option.some.inj (hw.symm.trans hv)
    rfl
  · rw [hnone] at hv
    cases hv

/-- A text is a numeral: digits and letters that are an integer literal, possibly behind a minus
sign. -/
inductive IsNumeral : String → Int → Prop
  | plain {text : String} {v : Int} (h : ∀ c ∈ text.toList, c.isAlphanum)
      (hv : Literal.parse? text.toList = some v) : IsNumeral text v
  | negative {text : String} {v : Int} (h : ∀ c ∈ text.toList, c.isAlphanum)
      (hv : Literal.parse? text.toList = some v) (hfits : Fits (-v)) : IsNumeral ("-" ++ text) (-v)

theorem divides_minus (rest : List Char) :
    Piece.Divides "-" rest [⟨.token (.mark .minus), ['-']⟩] :=
  .of_form fun _ => .mark (by simp)

theorem IsNumeral.passes {v : Int} (h : IsNumeral text v) (hrest : EndsRun Char.isAlphanum rest)
    (d : Nat) : Passes text rest d d := by
  cases h with
  | plain h hv => exact ⟨_, .number h hv hrest, rfl⟩
  | negative h hv hfits => exact ⟨_, (divides_minus _).append (.number h hv hrest), rfl⟩

theorem IsNumeral.readsAs {v : Int} (h : IsNumeral text v) : ReadsAs text (.literal v text) := by
  intro rest
  have hrest : EndsRun Char.isAlphanum (',' :: rest) := by
    rintro d ⟨⟩
    rfl
  cases h with
  | plain h hv =>
    obtain ⟨⟨c, cs, htext, -⟩, -⟩ := Literal.exists_of_parse?_of_alphanum h hv
    refine ⟨_, .number h hv hrest, fun hc => absurd (h _ hc) (by decide),
      by simp [Piece.lexemes, isPlain], fun offset line behind => ?_⟩
    have hread := classify_of_pieces [⟨.token (.integer v), text.toList⟩] [] rfl rfl rfl
      rfl rfl rfl rfl (by simpa using fun c hc => not_isBlank_of_isAlphanum (h c hc))
      (by simp [htext]) offset line behind
    simpa using hread
  | @negative text v h hv hfits =>
    refine ⟨_, (divides_minus _).append (.number h hv hrest), ?_, by simp [Piece.lexemes, isPlain],
      fun offset line behind => ?_⟩
    · rw [String.toList_append, List.mem_append]
      rintro (hc | hc)
      · exact absurd hc (by decide)
      · exact absurd (h _ hc) (by decide)
    have hread := classify_of_pieces
      [⟨.token (.mark .minus), ['-']⟩, ⟨.token (.integer v), text.toList⟩]
      [⟨.token (.mark .minus), ['-']⟩] rfl rfl rfl rfl rfl rfl
      (checked_eq_some_iff.mpr ⟨hfits, rfl⟩)
      (by simpa using ⟨by decide, fun c hc => not_isBlank_of_isAlphanum (h c hc)⟩)
      (by simp) offset line behind
    simpa [String.ofList_append] using hread

theorem initializerTokens_of_isPlain (hts : ∀ t ∈ ts, isPlain t.lexeme)
    (ht : t.lexeme = .mark .comma) (last : Nat) (us : List Token) :
    initializerTokens last 0 (ts ++ t :: us) = .ok (ts, t :: us) := by
  induction ts with
  | nil => exact initializerTokens_cons_stop (.inl ht) last us
  | cons u ts ih =>
    obtain ⟨hu, hts⟩ := List.forall_mem_cons.mp hts
    have hne : ∀ l, isPlain l = false → u.lexeme ≠ l := by
      rintro l hl rfl
      rw [hu] at hl
      cases hl
    have hdepth : depthAfter u.lexeme 0 = 0 := by
      unfold depthAfter
      split
      · exact absurd ‹_› (hne _ rfl)
      · rfl
      · rfl
    rw [List.cons_append, initializerTokens_cons (hne _ rfl) (hne _ rfl) (hne _ rfl) (hne _ rfl)
      (fun text => hne _ rfl), hdepth, ih hts]

/-! ### Comments -/

/-- A comment as it is read back: without the blanks around it, and not at all if it is blank. -/
def shownComment : Option String → Option String
  | none => none
  | some text => if trimmed text = "" then none else some (trimmed text)

theorem divides_newline (rest : List Char) :
    Piece.Divides "\n" rest [⟨.blank, ['\n']⟩] :=
  .of_form fun _ => .blank rfl

/-- The end of a line is read back as its comment. -/
theorem exists_divides_commentSuffix (h : ∀ text ∈ comment, '\n' ∉ text.toList)
    (rest : List Char) :
    ∃ ps, Piece.Divides (commentSuffix comment ++ "\n") rest ps ∧
      ∀ offset line behind us, StartSolid us →
        trailingRemark line (located offset line behind ps ++ us) = (shownComment comment, us) := by
  have hblank : Piece.Divides ("" ++ "\n") rest [⟨.blank, ['\n']⟩] := divides_newline rest
  rcases comment with - | text
  · exact ⟨_, hblank, fun offset line behind us hus => trailingRemark_of_startSolid hus line⟩
  by_cases htrim : trimmed text = ""
  · have hsuffix : commentSuffix (some text) = "" := by rw [commentSuffix, if_pos htrim]
    have hshown : shownComment (some text) = none := if_pos htrim
    rw [hsuffix, hshown]
    exact ⟨_, hblank, fun offset line behind us hus => trailingRemark_of_startSolid hus line⟩
  · -- Without a break in it, the comment goes on to the end of the line.
    have hline : '\n' ∉ (" " ++ trimmed text).toList := by
      simpa [trimmed] using fun hc => h text rfl (mem_of_mem_trim hc)
    have hspace : Piece.Divides " " (("//" ++ (" " ++ trimmed text) ++ "\n").toList ++ rest)
        [⟨.blank, [' ']⟩] := .of_form fun _ => .blank rfl
    have hsuffix : commentSuffix (some text) ++ "\n" =
        " " ++ ("//" ++ (" " ++ trimmed text) ++ "\n") := by
      simp [commentSuffix, htrim, ← String.toList_inj]
    have hshown : shownComment (some text) = some (trimmed text) := if_neg htrim
    have hremark : Piece.Divides ("//" ++ (" " ++ trimmed text)) ("\n".toList ++ rest)
        [⟨.token (.remark (String.ofList (trim (" " ++ trimmed text).toList))),
          '/' :: '/' :: (" " ++ trimmed text).toList⟩] := by
      rewrite [String.toList_ofList]
      exact .remark hline
    have hdivides := hspace.append (hremark.append (divides_newline rest))
    rw [hsuffix, hshown]
    refine ⟨_, hdivides, fun offset line behind us hus => ?_⟩
    simp [located, Piece.tokens, trailingRemark, trim_cons_space, trimmed, trim_trim]

/-! ### Lines -/

/-- Reading a line gives a member in front of those that are read behind it. -/
def ReadsBack (line : String) (m : Member) : Prop :=
  ∀ rest, ∃ ps, Piece.Divides (line ++ "\n") rest ps ∧
    ∀ offset n behind last us, StartSolid us →
      ∃ t ts, located offset n behind ps ++ us = t :: ts ∧ t.lexeme.isSolid ∧
        ∀ ms after, members last us = .ok (ms, after) →
          members last (t :: ts) = .ok (m :: ms, after)

theorem member_of_tokens {equals comma first : Token} {more : List Token}
    (hequals : equals.lexeme = .mark .assign) (hcomma : comma.lexeme = .mark .comma)
    (hplain : ∀ t ∈ first :: more, isPlain t.lexeme)
    (hts : trailingRemark line ts = (comment, us)) (last : Nat) (name : String) :
    member last name line (equals :: (first :: more ++ comma :: ts)) =
      .ok (⟨name, classify first more, comment⟩, us) := by
  have hvalue : memberValue last (equals :: (first :: more ++ comma :: ts)) =
      .ok (classify first more, comma :: ts) := by
    obtain ⟨lexeme, line, start, stop, onward⟩ := equals
    subst hequals
    rw [memberValue, next?_cons (by simp)]
    dsimp only
    rw [initializer, initializerTokens_of_isPlain hplain hcomma]
  have hseparator : afterSeparator last name (comma :: ts) = .ok ts := by
    obtain ⟨lexeme, line, start, stop, onward⟩ := comma
    subst hcomma
    rw [afterSeparator, next?_cons (by simp)]
  have hsolid : StartSolid (comma :: ts) := by
    rintro t ⟨⟩
    rw [hcomma]
    rfl
  unfold member
  rw [hvalue]
  simp only [trailingRemark_of_startSolid hsolid, hseparator, hts]

/-- The division of the line of a member, given those of the value and of the comment. -/
theorem divides_memberLine {vs cs : List Piece} (hname : IsWord name.toList)
    (hvs : Piece.Divides text (',' :: ((commentSuffix comment ++ "\n").toList ++ rest)) vs)
    (hcs : Piece.Divides (commentSuffix comment ++ "\n") rest cs) :
    Piece.Divides (memberLine "\t" name text comment ++ "\n") rest
      ([⟨.blank, ['\t']⟩] ++ ([⟨.token (.word name), name.toList⟩] ++
        ([⟨.blank, [' ']⟩, ⟨.token (.mark .assign), ['=']⟩, ⟨.blank, [' ']⟩] ++
          (vs ++ ([⟨.token (.mark .comma), [',']⟩] ++ cs))))) := by
  have hfront : ∀ rest, Piece.Divides "\t" rest [⟨.blank, ['\t']⟩] :=
    .constant (by decide +kernel) (by decide +kernel) rfl
  have hequals : ∀ rest, Piece.Divides " = " rest
      [⟨.blank, [' ']⟩, ⟨.token (.mark .assign), ['=']⟩, ⟨.blank, [' ']⟩] :=
    .constant (by decide +kernel) (by decide +kernel) rfl
  have hcomma : ∀ rest, Piece.Divides "," rest [⟨.token (.mark .comma), [',']⟩] :=
    .constant (by decide +kernel) (by decide +kernel) rfl
  have hword : Piece.Divides name
      ((" = " ++ (text ++ ("," ++ (commentSuffix comment ++ "\n")))).toList ++ rest)
      [⟨.token (.word name), name.toList⟩] := by
    refine .word hname ?_
    rw [String.toList_append]
    rintro d ⟨⟩
    rfl
  have htext : Piece.Divides text (("," ++ (commentSuffix comment ++ "\n")).toList ++ rest) vs := by
    rw [String.toList_append]
    exact hvs
  have hline : memberLine "\t" name text comment ++ "\n" =
      "\t" ++ (name ++ (" = " ++ (text ++ ("," ++ (commentSuffix comment ++ "\n"))))) := by
    simp only [memberLine, String.append_assoc]
  rw [hline]
  exact (hfront _).append (hword.append ((hequals _).append
    (htext.append ((hcomma _).append hcs))))

/-- **The line of a member is read back as the member.** -/
theorem readsBack_memberLine (hname : IsWord name.toList) (hvalue : ReadsAs text value)
    (hcomment : ∀ text ∈ comment, '\n' ∉ text.toList) :
    ReadsBack (memberLine "\t" name text comment) ⟨name, value, shownComment comment⟩ := by
  intro rest
  -- Each chunk of the line is divided given what follows it, so the last one comes first.
  obtain ⟨cs, hcs, hremark⟩ := exists_divides_commentSuffix hcomment rest
  obtain ⟨vs, hvs, hvline, hplain, hclass⟩ :=
    hvalue ((commentSuffix comment ++ "\n").toList ++ rest)
  refine ⟨_, divides_memberLine hname hvs hcs, fun offset n behind last us hus => ?_⟩
  -- All tokens are on one line, so the comment belongs to the member.
  have hvalueLine : (vs.flatMap Piece.text).count '\n' = 0 :=
    List.count_eq_zero_of_not_mem (hvs.flatMap_text ▸ hvline)
  have hnameLine : name.toList.count '\n' = 0 :=
    List.count_eq_zero_of_not_mem (not_mem_of_isWord hname.2)
  have hplain' : ∀ offset line behind, ∀ t ∈ located offset line behind vs, isPlain t.lexeme := by
    intro offset line behind t ht
    refine hplain t.lexeme ?_
    rw [← map_lexeme_located offset line behind]
    exact List.mem_map_of_mem ht
  choose first more hfirst hread using hclass
  simp only [List.cons_append, List.nil_append, located, Piece.tokens,
    located_append, hvalueLine, hnameLine, List.append_assoc, List.count_cons, List.count_nil,
    Nat.add_zero, Char.reduceBEq, Bool.false_eq_true, if_false]
  refine ⟨_, _, rfl, rfl, fun ms after hms => ?_⟩
  rw [members_cons_word rfl, hfirst, member_of_tokens rfl rfl (hfirst _ _ _ ▸ hplain' _ _ _)
    (hremark _ n _ us hus), hread]
  simp only [hms]

theorem textOf_cons (l : String) (ls : List String) :
    textOf (l :: ls) = l ++ "\n" ++ textOf ls :=
  rfl

/-- **Lines are read back as their members in order.** -/
theorem exists_divides_members {α : Type} {line : α → String} {back : α → Member} {as : List α}
    (h : ∀ a ∈ as, ReadsBack (line a) (back a)) (rest : List Char) :
    ∃ ps, Piece.Divides (textOf (as.map line)) rest ps ∧
      ∀ offset n behind last us, StartSolid us →
        StartSolid (located offset n behind ps ++ us) ∧
        ∀ ms after, members last us = .ok (ms, after) →
          members last (located offset n behind ps ++ us) = .ok (as.map back ++ ms, after) := by
  induction as with
  | nil => exact ⟨[], .nil rest, fun offset n behind last us hus => ⟨hus, fun ms after hms => hms⟩⟩
  | cons a as ih =>
    obtain ⟨ha, has⟩ := List.forall_mem_cons.mp h
    obtain ⟨qs, hqs, hread⟩ := ih has
    obtain ⟨ps, hps, hline⟩ := ha ((textOf (as.map line)).toList ++ rest)
    refine ⟨ps ++ qs, by rw [List.map_cons, textOf_cons]; exact hps.append hqs,
      fun offset n behind last us hus => ?_⟩
    rw [located_append, List.append_assoc]
    obtain ⟨hsolid, hmembers⟩ := hread _ _ behind last us hus
    obtain ⟨t, ts, hts, ht, hcons⟩ := hline offset n (qs.flatMap Piece.text ++ behind) last _ hsolid
    rw [hts]
    refine ⟨fun u hu => by cases hu; exact ht, fun ms after hms => ?_⟩
    rw [List.map_cons, List.cons_append]
    exact hcons _ _ (hmembers ms after hms)

end Rendering

end Enumerant
