import Mathlib.Data.List.Infix
import Enumerant.Proofs.Header.LiteralText
import Enumerant.Proofs.Text.Trimming

/-!
# Line endings

A line may end with a line feed alone or with a carriage return in front of it (`crlf`). The
carriage return is a blank to the pieces of a header, but it is in the way of a backslash: a
directive and a quoted text go on behind a line feed that directly follows a backslash, and behind a
carriage return they do not.

`stamps_crlf` shows that this is all: the pieces of the two texts are the same up to carriage
returns exactly if no piece goes on in this way, and then the tokens have the same lexemes on the
same lines.
-/

namespace Enumerant.Header

open Text

variable {fresh : Bool} {c d : Char} {cs ds rest : List Char} {p : Piece} {ps : List Piece}

/-! ### Texts with carriage returns -/

/-- A text with a carriage return in front of each line break. -/
def crlf (cs : List Char) : List Char :=
  cs.flatMap fun c => if c = '\n' then ['\r', '\n'] else [c]

@[simp]
theorem crlf_nil : crlf [] = [] := rfl

@[simp]
theorem crlf_newline_cons (cs : List Char) : crlf ('\n' :: cs) = '\r' :: '\n' :: crlf cs := rfl

theorem crlf_cons (hc : c ≠ '\n') (cs : List Char) : crlf (c :: cs) = c :: crlf cs := by
  rw [crlf, List.flatMap_cons, if_neg hc]
  rfl

/-- Two texts take their returns each on its own. -/
theorem crlf_append (cs ds : List Char) : crlf (cs ++ ds) = crlf cs ++ crlf ds :=
  List.flatMap_append

/-- A text of one line has no place for a return. -/
theorem crlf_of_not_mem (h : '\n' ∉ cs) : crlf cs = cs := by
  induction cs with
  | nil => rfl
  | cons c cs ih =>
    rw [List.mem_cons, not_or] at h
    rw [crlf_cons (Ne.symm h.1), ih h.2]

/-- A character other than a line break is in front of both texts or of none. -/
theorem head?_crlf_eq_some_iff (hreturn : c ≠ '\r') (hnewline : c ≠ '\n') :
    (crlf cs).head? = some c ↔ cs.head? = some c := by
  rcases cs with - | ⟨d, cs⟩
  · rfl
  · by_cases hd : d = '\n'
    · subst hd
      simp [hreturn.symm, hnewline.symm]
    · rw [crlf_cons hd, List.head?_cons, List.head?_cons]

/-- Without its carriage returns the text is what it was. -/
theorem filter_crlf (h : '\r' ∉ cs) : (crlf cs).filter (· != '\r') = cs := by
  induction cs with
  | nil => rfl
  | cons c cs ih =>
    rw [List.mem_cons, not_or] at h
    by_cases hc : c = '\n'
    · subst hc
      simp [ih h.2]
    · simp [crlf_cons hc, Ne.symm h.1, ih h.2]

/-- No line break is in front of a text with carriage returns. -/
theorem head?_crlf_ne (cs : List Char) : (crlf cs).head? ≠ some '\n' := by
  rcases cs with - | ⟨c, cs⟩
  · simp
  · by_cases hc : c = '\n'
    · subst hc
      simp
    · rw [crlf_cons hc, List.head?_cons, ne_eq, Option.some_inj]
      exact hc

/-- No line break directly follows a backslash. -/
theorem not_infix_crlf (cs : List Char) : ¬ ['\\', '\n'] <:+: crlf cs := by
  induction cs with
  | nil => simp
  | cons c cs ih =>
    by_cases hc : c = '\n'
    · subst hc
      simp [List.infix_cons_iff, ih]
    · rw [crlf_cons hc, List.infix_cons_iff, not_or]
      refine ⟨?_, ih⟩
      rintro ⟨tail, htail⟩
      refine head?_crlf_ne cs ?_
      rw [← (List.cons.inj htail).2]
      rfl

/-- A run that no return is part of ends in front of a return. -/
theorem EndsRun.crlf {kind : Char → Bool} (h : EndsRun kind rest) (hreturn : kind '\r' = false) :
    EndsRun kind (crlf rest) := by
  rcases rest with - | ⟨d, rest⟩
  · exact h
  · by_cases hd : d = '\n'
    · subst hd
      rintro e ⟨⟩
      exact hreturn
    · rw [crlf_cons hd]
      exact h

/-! ### Continued lines -/

/-- Every line break in a text directly follows a backslash. -/
def Continued : List Char → Prop
  | '\\' :: '\n' :: cs => Continued cs
  | c :: cs => c ≠ '\n' ∧ Continued cs
  | [] => True

/-- A text is continued if each of its line breaks has a backslash in front. -/
theorem continued_cons (c : Char) (cs : List Char) :
    Continued (c :: cs) ↔
      if c = '\\' ∧ cs.head? = some '\n' then Continued cs.tail else c ≠ '\n' ∧ Continued cs := by
  rcases cs with - | ⟨d, cs⟩
  · simp [Continued]
  · by_cases hc : c = '\\'
    · by_cases hd : d = '\n' <;> simp [Continued, hc, hd]
    · simp [Continued, hc]

theorem continued_of_not_mem (h : '\n' ∉ cs) : Continued cs := by
  induction cs with
  | nil => exact trivial
  | cons c cs ih =>
    rw [List.mem_cons, not_or] at h
    rw [continued_cons, if_neg fun hc => h.2 (List.mem_of_mem_head? hc.2)]
    exact ⟨Ne.symm h.1, ih h.2⟩

/-- A continued text begins with no line break. -/
theorem Continued.head?_ne (h : Continued cs) : cs.head? ≠ some '\n' := by
  rcases cs with - | ⟨c, cs⟩
  · simp
  · rw [continued_cons] at h
    rw [List.head?_cons, ne_eq, Option.some_inj]
    split at h
    case isTrue hc => simp [hc.1]
    case isFalse => exact h.1

/-- Continued texts are continued together. -/
theorem Continued.append (hcs : Continued cs) (hds : Continued ds) : Continued (cs ++ ds) := by
  fun_induction Continued cs with
  | case1 cs ih => exact ih hcs
  | case2 c cs hne ih =>
    rw [List.cons_append, continued_cons, if_neg]
    · exact ⟨hcs.1, ih hcs.2⟩
    · rintro ⟨rfl, hhead⟩
      rcases cs with - | ⟨d, cs⟩
      · exact hds.head?_ne hhead
      · cases hhead
        exact hne cs rfl rfl
  | case3 => exact hds

/-- A continued text of several lines has a backslash in front of a line break. -/
theorem Continued.infix_of_mem (h : Continued cs) (hmem : '\n' ∈ cs) : ['\\', '\n'] <:+: cs := by
  fun_induction Continued cs with
  | case1 cs => exact ⟨[], cs, rfl⟩
  | case2 c cs hne ih =>
    have hmem : '\n' ∈ cs := (List.mem_cons.mp hmem).resolve_left (Ne.symm h.1)
    exact (ih h.2 hmem).trans (List.suffix_cons c cs).isInfix
  | case3 => exact absurd hmem List.not_mem_nil

theorem getLast?_ne_of_cons (h : (c :: cs).getLast? ≠ some d) : cs.getLast? ≠ some d := by
  rcases cs with - | ⟨e, cs⟩
  · simp
  · rwa [List.getLast?_cons_cons] at h

/-- A directive goes on behind a continued text. -/
theorem directiveExtent_append (h : Continued cs)
    (hend : cs.getLast? ≠ some '\\' ∨ ds.head? ≠ some '\n') :
    directiveExtent (cs ++ ds) = cs.length + directiveExtent ds := by
  fun_induction Continued cs with
  | case1 cs ih =>
    have hend : cs.getLast? ≠ some '\\' ∨ ds.head? ≠ some '\n' :=
      hend.imp_left fun h => getLast?_ne_of_cons (getLast?_ne_of_cons h)
    rw [List.cons_append, List.cons_append, directiveExtent, ih h hend, List.length_cons,
      List.length_cons]
    omega
  | case2 c cs hne ih =>
    have hback : ¬ (c = '\\' ∧ (cs ++ ds).head? = some '\n') := by
      rintro ⟨rfl, hhead⟩
      rcases cs with - | ⟨d, cs⟩
      · rcases hend with hend | hend
        · exact hend rfl
        · exact hend hhead
      · cases hhead
        exact hne cs rfl rfl
    have hend : cs.getLast? ≠ some '\\' ∨ ds.head? ≠ some '\n' := hend.imp_left getLast?_ne_of_cons
    rw [List.cons_append, directiveExtent_cons, if_neg hback, if_neg h.1, ih h.2 hend,
      List.length_cons]
    omega
  | case3 => simp

/-- A directive is a continued text up to a line break or the end. -/
theorem continued_of_directiveExtent (h : directiveExtent (cs ++ rest) = cs.length) :
    Continued cs ∧ EndsRun (· != '\n') rest := by
  fun_induction Continued cs with
  | case1 cs ih =>
    rw [List.cons_append, List.cons_append, directiveExtent, List.length_cons,
      List.length_cons] at h
    exact ih (by omega)
  | case2 c cs hne ih =>
    rw [List.cons_append, directiveExtent_cons, List.length_cons] at h
    split_ifs at h with hback hc
    · obtain ⟨rfl, hhead⟩ := hback
      rcases cs with - | ⟨d, cs⟩
      · simp at h
      · cases hhead
        exact absurd rfl (hne cs rfl)
    · obtain ⟨hcs, hrest⟩ := ih (by omega)
      exact ⟨⟨hc, hcs⟩, hrest⟩
  | case3 =>
    refine ⟨trivial, fun d hd => ?_⟩
    obtain ⟨ds, rfl⟩ := List.head?_eq_some_iff.mp hd
    rw [List.nil_append, directiveExtent_cons] at h
    split_ifs at h with hback hc
    simp [hc]

/-! ### Extents -/

/-- A block comment is closed where it was. -/
theorem commentExtent_crlf (cs : List Char) :
    commentExtent (crlf cs) = (crlf (cs.take (commentExtent cs))).length := by
  induction cs with
  | nil => rfl
  | cons c cs ih =>
    rw [commentExtent_cons]
    by_cases hend : c = '*' ∧ cs.head? = some '/'
    · obtain ⟨rfl, hcs⟩ := hend
      obtain ⟨ds, rfl⟩ := List.head?_eq_some_iff.mp hcs
      rfl
    rw [if_neg hend, List.take_succ_cons]
    by_cases hc : c = '\n'
    · subst hc
      rw [crlf_newline_cons, crlf_newline_cons, commentExtent_cons, if_neg (by simp),
        commentExtent_cons, if_neg (by simp), ih, List.length_cons, List.length_cons]
    · have hend' : ¬ (c = '*' ∧ (crlf cs).head? = some '/') := by
        rwa [head?_crlf_eq_some_iff (by decide) (by decide)]
      rw [crlf_cons hc, crlf_cons hc, commentExtent_cons, if_neg hend', ih, List.length_cons]

/-- A last character closes a quoted text with carriage returns, too. -/
theorem quotedExtent_crlf_singleton {quote : Char} (hreturn : quote ≠ '\r')
    (h : quotedExtent quote (c :: rest) = 1) :
    quotedExtent quote (crlf [c] ++ crlf rest) = (crlf [c]).length := by
  by_cases hback : c = '\\'
  · subst hback
    rcases rest with - | ⟨e, rest⟩
    · rw [crlf_cons (by decide), crlf_nil, List.append_nil, quotedExtent_cons,
        if_neg (by simp)]
      split_ifs <;> rfl
    · rw [quotedExtent_escape] at h
      simp at h
  rw [quotedExtent_cons_of_ne hback] at h
  by_cases hc : c = '\n'
  · subst hc
    have hne : ¬ ('\r' = quote ∨ '\r' = '\n') := by simp [hreturn.symm]
    rw [crlf_newline_cons, crlf_nil, List.cons_append, quotedExtent_cons_of_ne (by decide),
      if_neg hne, List.cons_append, quotedExtent_cons_of_ne (by decide), if_pos (.inr rfl)]
    rfl
  · rw [crlf_cons hc, crlf_nil, List.singleton_append, quotedExtent_cons_of_ne hback]
    split_ifs at h ⊢
    · rfl
    · obtain rfl := eq_nil_of_quotedExtent_eq_zero (Nat.succ.inj h)
      rfl

/-- A quoted text that does not go on behind a line break is closed where it was. -/
theorem quotedExtent_crlf {quote : Char} (hreturn : quote ≠ '\r') :
    ∀ cs : List Char, quotedExtent quote (cs ++ rest) = cs.length → '\n' ∉ cs.dropLast →
      quotedExtent quote (crlf cs ++ crlf rest) = (crlf cs).length
  | [], h, _ => by
    obtain rfl := eq_nil_of_quotedExtent_eq_zero h
    rfl
  | [c], h, _ => quotedExtent_crlf_singleton hreturn h
  | c :: d :: cs, h, hlast => by
    have ih₁ := quotedExtent_crlf hreturn cs
    have ih₂ := quotedExtent_crlf hreturn (d :: cs)
    rw [List.dropLast_cons_cons, List.mem_cons, not_or] at hlast
    by_cases hback : c = '\\'
    · subst hback
      rw [List.cons_append, List.cons_append, quotedExtent_escape] at h
      have hcs : quotedExtent quote (cs ++ rest) = cs.length := by simpa using h
      rw [crlf_cons (Ne.symm hlast.1)]
      by_cases hd : d = '\n'
      · -- The line break is the last character, and the text is not closed.
        subst hd
        obtain rfl : cs = [] := by
          rcases cs with - | ⟨e, cs⟩
          · rfl
          · simp at hlast
        obtain rfl := eq_nil_of_quotedExtent_eq_zero hcs
        rw [crlf_newline_cons, List.cons_append, List.cons_append, quotedExtent_escape,
          crlf_nil, List.append_nil, quotedExtent_cons_of_ne (by decide), if_pos (.inr rfl)]
        rfl
      · have hlast : '\n' ∉ cs.dropLast := by
          rcases cs with - | ⟨e, cs⟩
          · exact List.not_mem_nil
          · exact fun hmem => hlast.2 (List.mem_cons_of_mem d hmem)
        rw [crlf_cons hd, List.cons_append, List.cons_append, quotedExtent_escape, ih₁ hcs hlast,
          List.length_cons, List.length_cons]
    · rw [List.cons_append, quotedExtent_cons_of_ne hback] at h
      split_ifs at h with hend
      · simp at h
      · rw [crlf_cons (Ne.symm hlast.1), List.cons_append, quotedExtent_cons_of_ne hback,
          if_neg hend, ih₂ (by simpa using h) hlast.2, List.length_cons]

/-- A quoted text goes on behind a line break only if a backslash takes that along. -/
theorem infix_of_quotedExtent {quote : Char} :
    ∀ cs : List Char, quotedExtent quote (cs ++ rest) = cs.length → '\n' ∈ cs.dropLast →
      ['\\', '\n'] <:+: cs
  | [], _, hmem => absurd hmem List.not_mem_nil
  | [c], _, hmem => absurd hmem List.not_mem_nil
  | c :: d :: cs, h, hmem => by
    have ih₁ := @infix_of_quotedExtent quote cs
    have ih₂ := @infix_of_quotedExtent quote (d :: cs)
    rw [List.cons_append, quotedExtent_cons, List.length_cons] at h
    rw [List.dropLast_cons_cons, List.mem_cons] at hmem
    split_ifs at h with hback hend
    · obtain ⟨rfl, -⟩ := hback
      by_cases hd : d = '\n'
      · subst hd
        exact ⟨[], cs, rfl⟩
      rcases cs with - | ⟨e, cs⟩
      · simp at hmem
      have hmem : '\n' ∈ (e :: cs).dropLast := by simpa [Ne.symm hd] using hmem
      exact (ih₁ (by simpa using h) hmem).trans
        ((List.suffix_cons d _).trans (List.suffix_cons '\\' _)).isInfix
    · simp at h
    · have hmem : '\n' ∈ (d :: cs).dropLast :=
        hmem.resolve_left fun hc => hend (.inr hc.symm)
      exact (ih₂ (by simpa using h) hmem).trans (List.suffix_cons c _).isInfix

/-! ### Pieces without carriage returns -/

theorem mem_dropLast_cons_iff (h : c ≠ d) : c ∈ (d :: cs).dropLast ↔ c ∈ cs.dropLast := by
  rcases cs with - | ⟨e, cs⟩
  · simp
  · rw [List.dropLast_cons_cons, List.mem_cons, or_iff_right h]

/-- What is not last among some is not last among all. -/
theorem mem_dropLast_of_filter {keep : Char → Bool} (h : c ∈ (cs.filter keep).dropLast) :
    c ∈ cs.dropLast := by
  rcases List.eq_nil_or_concat cs with rfl | ⟨ds, d, rfl⟩
  · exact h
  · rw [List.concat_eq_append, List.filter_append] at h
    rw [List.concat_eq_append, List.dropLast_concat]
    cases hd : keep d
    · rw [List.filter_singleton, hd, cond_false, List.append_nil] at h
      exact (List.mem_filter.mp (List.mem_of_mem_dropLast h)).1
    · rw [List.filter_singleton, hd, cond_true, List.dropLast_concat] at h
      exact (List.mem_filter.mp h).1

/-- A piece without its carriage returns. -/
def Piece.bare (p : Piece) : Piece :=
  ⟨p.kind, p.text.filter (· != '\r')⟩

/-- Pieces without their carriage returns; blanks that were nothing else are left out. -/
def bare (ps : List Piece) : List Piece :=
  (ps.map Piece.bare).filter fun p => !p.text.isEmpty

/-- A piece that goes on behind a line break, which a backslash takes along. -/
def Piece.GoesOn (p : Piece) : Prop :=
  p.kind = .directive ∧ '\n' ∈ p.text ∨ p.kind = .quoted ∧ '\n' ∈ p.text.dropLast

instance (p : Piece) : Decidable p.GoesOn :=
  inferInstanceAs (Decidable (_ ∨ _))

/-- Returns are blanks, so they leave a line as fresh as it was. -/
theorem Piece.leavesFresh_bare (p : Piece) (fresh : Bool) :
    p.bare.leavesFresh fresh = p.leavesFresh fresh := by
  have hcontains : p.bare.text.contains '\n' = p.text.contains '\n' := by
    rw [Bool.eq_iff_iff]
    simp [bare]
  rw [leavesFresh, leavesFresh, hcontains]
  rfl

/-- Without returns there is nothing to take away. -/
theorem Piece.bare_of_not_mem (h : '\r' ∉ p.text) : p.bare = p := by
  have hfilter : p.text.filter (· != '\r') = p.text :=
    List.filter_eq_self.mpr fun c hc => bne_iff_ne.mpr fun heq => h (heq ▸ hc)
  rw [bare, hfilter]

/-- A piece that is more than returns stays. -/
theorem bare_cons (h : p.bare.text ≠ []) (ps : List Piece) :
    bare (p :: ps) = p.bare :: bare ps := by
  rw [bare, List.map_cons, List.filter_cons_of_pos (by simpa using h), ← bare]

/-- A piece of returns goes. -/
theorem bare_cons_of_eq_nil (h : p.bare.text = []) (ps : List Piece) :
    bare (p :: ps) = bare ps := by
  rw [bare, List.map_cons, List.filter_cons_of_neg (by simp [h]), ← bare]

/-- A carriage return in front of a text is left out. -/
theorem bare_split_return (fresh : Bool) (cs : List Char) :
    bare (Piece.split fresh ('\r' :: cs)) = bare (Piece.split fresh cs) := by
  have hform : Form fresh cs ⟨.blank, ['\r']⟩ := .blank rfl
  have hfresh : (⟨.blank, ['\r']⟩ : Piece).leavesFresh fresh = fresh := by
    simp [Piece.leavesFresh]
  have hsplit := Piece.split_of_begins (.of_form hform)
  rw [hfresh] at hsplit
  rw [show '\r' :: cs = ['\r'] ++ cs from rfl, hsplit]
  rfl

/-- A text that begins with a piece that has carriage returns in it. -/
theorem bare_split_of_form {q : Piece} (h : Form fresh rest q) (hq : q.bare = p)
    (hp : p.text ≠ []) :
    bare (Piece.split fresh (q.text ++ rest)) =
      p :: bare (Piece.split (p.leavesFresh fresh) rest) := by
  subst hq
  rw [Piece.split_of_begins (.of_form h), bare_cons hp, Piece.leavesFresh_bare]

/-! ### One piece -/

theorem newline_not_mem_cons {first kind : Char → Bool} (hc : first c) (hcs : ∀ d ∈ cs, kind d)
    (hfirst : first '\n' = false) (hkind : kind '\n' = false) : '\n' ∉ c :: cs := by
  intro hmem
  rcases List.mem_cons.mp hmem with rfl | hmem
  · rw [hfirst] at hc
    cases hc
  · have hline := hcs _ hmem
    rw [hkind] at hline
    cases hline

/-- A piece that the end of the line does not end is the same in front of carriage returns, and with
carriage returns in it. -/
theorem form_crlf (h : Form fresh rest p) (hgoesOn : ¬ p.GoesOn) (hblank : p.text ≠ ['\n'])
    (hline : ¬ p.EndsWithLine) : Form fresh (crlf rest) ⟨p.kind, crlf p.text⟩ := by
  cases h with
  | @blank c hc =>
    have hc' : c ≠ '\n' := fun h => hblank (by rw [h])
    rw [crlf_cons hc', crlf_nil]
    exact .blank hc
  | directive => exact absurd (.inl rfl) hline
  | remark => exact absurd (.inr ⟨_, rfl⟩) hline
  | @comment cs hcs =>
    have hextent := commentExtent_crlf (cs ++ rest)
    rw [hcs, List.take_left, crlf_append] at hextent
    rw [crlf_cons (by decide), crlf_cons (by decide)]
    exact .comment hextent
  | @quoted c cs hc hcs =>
    have hne : ∀ d : Char, d.toNat ≠ 0x22 ∧ d.toNat ≠ 0x27 → c ≠ d := by
      rintro d hd rfl
      omega
    -- Only at the end may a line break be part of the literal: within it, it would be escaped.
    have hlast : '\n' ∉ cs.dropLast := fun hmem =>
      hgoesOn (.inr ⟨rfl, (mem_dropLast_cons_iff (hne '\n' (by decide)).symm).mpr hmem⟩)
    rw [crlf_cons (hne '\n' (by decide))]
    exact .quoted hc (quotedExtent_crlf (hne '\r' (by decide)) cs hcs hlast)
  | @number c cs hc hcs hrest =>
    rw [crlf_of_not_mem (newline_not_mem_cons hc hcs rfl rfl)]
    exact .number hc hcs (hrest.crlf (by decide))
  | @word c cs hc hcs hrest =>
    rw [crlf_of_not_mem (newline_not_mem_cons hc hcs rfl rfl)]
    exact .word hc hcs (hrest.crlf (by decide))
  | @mark m hslash =>
    have hline : '\n' ∉ m.text := by cases m <;> decide
    rw [crlf_of_not_mem hline]
    refine .mark fun hm => ?_
    rw [ne_eq, ne_eq, head?_crlf_eq_some_iff (by decide) (by decide),
      head?_crlf_eq_some_iff (by decide) (by decide)]
    exact hslash hm
  -- A stray is neither kind of line ending, since these are blanks.
  | @strays c hc hp hrest =>
    have hline : c ≠ '\n' := by
      rintro rfl
      exact hc.not_space (by decide)
    rw [crlf_cons hline, crlf_nil]
    refine .strays hc hp fun hlt => ?_
    have hreturn : c ≠ '\r' := by
      rintro rfl
      exact hc.not_space (by decide)
    rw [ne_eq, head?_crlf_eq_some_iff hreturn hline]
    exact hrest hlt

/-- A line comment or a directive goes up to the end of a line. -/
theorem Form.endsRun_of_endsWithLine (h : Form fresh rest p) (hline : p.EndsWithLine) :
    EndsRun (· != '\n') rest := by
  cases h with
  | directive _ hcs => exact (continued_of_directiveExtent hcs).2
  | remark _ hrest => exact hrest
  | number =>
    rcases hline with hline | ⟨text, hline⟩
    · cases hline
    · exact absurd (Piece.Kind.token.inj hline) (numberLexeme_ne_remark _ _)
  | _ => rcases hline with hline | ⟨text, hline⟩ <;> cases hline

/-- A line comment or a directive that ends with its line takes the carriage return along. -/
theorem Form.append_return (h : Form fresh rest p) (hgoesOn : ¬ p.GoesOn) (hline : p.EndsWithLine) :
    '\n' ∉ p.text ∧ ∀ ds, Form fresh ('\n' :: ds) ⟨p.kind, p.text ++ ['\r']⟩ := by
  cases h with
  | @directive cs hfresh hcs =>
    have hmem : '\n' ∉ '#' :: cs := fun hmem => hgoesOn (.inl ⟨rfl, hmem⟩)
    have hreturn : Continued (cs ++ ['\r']) :=
      (continued_of_directiveExtent hcs).1.append (continued_of_not_mem (by decide))
    refine ⟨hmem, fun ds => @Form.directive _ _ (cs ++ ['\r']) hfresh ?_⟩
    rw [directiveExtent_append hreturn (.inl (by simp)), directiveExtent_cons,
      if_neg (by simp), if_pos rfl]
    rfl
  -- The carriage return becomes part of a remark, and is trimmed off its text.
  | @remark cs hcs =>
    have hmem : '\n' ∉ '/' :: '/' :: cs := by
      simp only [List.mem_cons, Char.reduceEq, false_or]
      exact fun hmem => absurd (hcs _ hmem) (by decide)
    refine ⟨hmem, fun ds => ?_⟩
    have hreturn : ∀ d ∈ ['\r'], isBlank d := List.forall_mem_singleton.mpr rfl
    rw [← trim_append_of_forall hreturn cs]
    refine @Form.remark _ _ (cs ++ ['\r']) (List.forall_mem_append.mpr ⟨hcs, ?_⟩) ?_
    · exact List.forall_mem_singleton.mpr rfl
    · rintro d ⟨⟩
      rfl
  | number =>
    rcases hline with hline | ⟨text, hline⟩
    · cases hline
    · exact absurd (Piece.Kind.token.inj hline) (numberLexeme_ne_remark _ _)
  | _ => rcases hline with hline | ⟨text, hline⟩ <;> cases hline

/-- The first piece of a text is also the first one of the text with carriage returns. -/
theorem bare_split_crlf_of_form (h : Form fresh rest p) (hgoesOn : ¬ p.GoesOn)
    (hreturn : '\r' ∉ p.text) :
    bare (Piece.split fresh (crlf (p.text ++ rest))) =
      p :: bare (Piece.split (p.leavesFresh fresh) (crlf rest)) := by
  have hne : p.text ≠ [] := by
    obtain ⟨c, cs, htext, -⟩ := Piece.Begins.of_form h
    simp [htext]
  rw [crlf_append]
  by_cases hline : p.EndsWithLine
  · obtain ⟨hmem, hform⟩ := h.append_return hgoesOn hline
    rcases rest with - | ⟨d, rest⟩
    · rw [crlf_of_not_mem hmem, crlf_nil]
      exact bare_split_of_form h (Piece.bare_of_not_mem hreturn) hne
    · obtain rfl : d = '\n' := by simpa using h.endsRun_of_endsWithLine hline d rfl
      have hbare : (⟨p.kind, p.text ++ ['\r']⟩ : Piece).bare = p := by
        refine Eq.trans ?_ (Piece.bare_of_not_mem hreturn)
        simp [Piece.bare]
      have hsplit := bare_split_of_form (hform (crlf rest)) hbare hne
      rw [List.append_assoc] at hsplit
      rw [crlf_of_not_mem hmem, crlf_newline_cons, bare_split_return]
      exact hsplit
  by_cases hnewline : p.text = ['\n']
  · -- The carriage return is a blank of its own.
    rw [hnewline, crlf_newline_cons, crlf_nil, List.cons_append, bare_split_return, ← hnewline]
    have hblank : Form fresh (crlf rest) p := by
      obtain ⟨kind, text⟩ := p
      obtain ⟨c, cs, htext, hclass⟩ := Piece.Begins.of_form h
      obtain ⟨rfl, rfl⟩ := List.cons.inj (htext.symm.trans hnewline)
      rw [Piece.classify_space rfl, Prod.mk.injEq] at hclass
      obtain ⟨rfl, -⟩ := hclass
      subst hnewline
      exact .blank rfl
    exact bare_split_of_form hblank (Piece.bare_of_not_mem hreturn) hne
  · have hbare : (⟨p.kind, crlf p.text⟩ : Piece).bare = p := by
      rw [Piece.bare, filter_crlf hreturn]
    exact bare_split_of_form (form_crlf h hgoesOn hnewline hline) hbare hne

/-! ### All pieces -/

/-- Pieces that do not go on behind a line break are the same in front of carriage returns. -/
theorem bare_split_crlf (hreturn : '\r' ∉ cs) (h : Piece.split fresh cs = ps)
    (hgoesOn : ∀ p ∈ ps, ¬ p.GoesOn) : bare (Piece.split fresh (crlf cs)) = ps := by
  induction ps generalizing fresh cs with
  | nil =>
    have hcs := Piece.flatMap_text_split fresh cs
    rw [h, List.flatMap_nil] at hcs
    rw [← hcs, crlf_nil, Piece.split_nil]
    rfl
  | cons p ps ih =>
    obtain ⟨rfl, hp, hps⟩ := Piece.begins_of_split h
    obtain ⟨hgoes, hgoesOn⟩ := List.forall_mem_cons.mp hgoesOn
    rw [List.mem_append, not_or] at hreturn
    rw [bare_split_crlf_of_form hp.form hgoes hreturn.1, ih hreturn.2 hps hgoesOn]

/-- No piece of a text with carriage returns goes on behind a line break. -/
theorem not_goesOn_of_mem_split_crlf (h : p ∈ Piece.split fresh (crlf cs)) : ¬ p.GoesOn := by
  obtain ⟨before, after, hsplit⟩ := List.append_of_mem h
  have hinfix : p.text <:+: crlf cs := by
    rw [← Piece.flatMap_text_split fresh (crlf cs), hsplit, List.flatMap_append,
      List.flatMap_cons]
    exact ⟨_, _, List.append_assoc _ _ _⟩
  have hform := Piece.form_of_split hsplit
  intro hgoesOn
  -- A piece goes on over a line break only behind a backslash, but there is a return in between.
  refine not_infix_crlf cs (List.IsInfix.trans ?_ hinfix)
  rcases hgoesOn with ⟨hkind, hmem⟩ | ⟨hkind, hmem⟩
  · cases hform with
    | @directive ds _ hds =>
      have hmem : '\n' ∈ ds := by simpa using hmem
      exact ((continued_of_directiveExtent hds).1.infix_of_mem hmem).trans
        (List.suffix_cons '#' ds).isInfix
    | _ => cases hkind
  · cases hform with
    | @quoted c ds hc hds =>
      have hne : '\n' ≠ c := by
        rintro rfl
        exact absurd hc (by decide)
      have hmem : '\n' ∈ ds.dropLast := (mem_dropLast_cons_iff hne).mp hmem
      exact (infix_of_quotedExtent ds hds hmem).trans (List.suffix_cons c ds).isInfix
    | _ => cases hkind

/-- A directive that goes on without its returns goes on. -/
theorem Piece.GoesOn.of_bare (h : p.bare.GoesOn) : p.GoesOn := by
  rcases h with ⟨hkind, hmem⟩ | ⟨hkind, hmem⟩
  · exact .inl ⟨hkind, (List.mem_filter.mp hmem).1⟩
  · exact .inr ⟨hkind, mem_dropLast_of_filter hmem⟩

/-! ### Lexemes and lines -/

/-- What a text says: the lexemes of its tokens with their lines. -/
def stamps (cs : List Char) : List (Lexeme × Nat) :=
  (tokens cs).map fun t => (t.lexeme, t.line)

/-- The lexemes of pieces with their lines, from a line on. -/
def stampsFrom (line : Nat) : List Piece → List (Lexeme × Nat)
  | [] => []
  | p :: ps => p.lexemes.map (·, line) ++ stampsFrom (line + p.text.count '\n') ps

/-- The tokens of a piece are all on the line that it begins on. -/
theorem Piece.map_stamp_tokens (p : Piece) (offset line : Nat) (onward : List UInt8) :
    (p.tokens offset line onward).map (fun t => (t.lexeme, t.line)) = p.lexemes.map (·, line) := by
  obtain ⟨kind, text⟩ := p
  cases kind with
  | strays => exact List.ext_getElem (by simp [tokens, lexemes]) (by simp [tokens, lexemes])
  | _ => rfl

theorem map_stamp_located (offset line : Nat) (behind : List Char) (ps : List Piece) :
    (located offset line behind ps).map (fun t => (t.lexeme, t.line)) = stampsFrom line ps := by
  induction ps generalizing offset line with
  | nil => rfl
  | cons p ps ih => rw [located, List.map_append, Piece.map_stamp_tokens, ih, stampsFrom]

/-- The stamps of a text are those of its pieces. -/
theorem stamps_eq (cs : List Char) : stamps cs = stampsFrom 1 (Piece.split true cs) := by
  rw [stamps, tokens_eq_located, map_stamp_located]

/-- A piece without carriage returns has the same lexemes, and a blank that is nothing else has
none. -/
theorem Form.lexemes_bare (h : Form fresh rest p) :
    p.bare.lexemes = p.lexemes ∧ (p.bare.text = [] → p.lexemes = []) := by
  refine ⟨?_, fun hnil => ?_⟩
  · cases h with
    | @strays c hc =>
      have hne : '\r' ∉ [c] := by
        rw [List.mem_singleton]
        rintro rfl
        exact hc.not_space (by decide)
      rw [Piece.bare_of_not_mem hne]
    | _ => rfl
  · obtain ⟨c, cs, htext, hclass⟩ := Piece.Begins.of_form h
    have hspace : isSpace c := by
      have hc : c = '\r' := by simpa [htext] using List.filter_eq_nil_iff.mp hnil c
      rw [hc]
      rfl
    rw [Piece.classify_space hspace, Prod.mk.injEq] at hclass
    rw [Piece.lexemes, ← hclass.1]

/-- Taking away returns changes no stamp if it changes no token. -/
theorem stampsFrom_bare (line : Nat)
    (h : ∀ p ∈ ps, p.bare.lexemes = p.lexemes ∧ (p.bare.text = [] → p.lexemes = [])) :
    stampsFrom line (bare ps) = stampsFrom line ps := by
  induction ps generalizing line with
  | nil => rfl
  | cons p ps ih =>
    obtain ⟨⟨hlexemes, hnil⟩, h⟩ := List.forall_mem_cons.mp h
    have hcount : p.bare.text.count '\n' = p.text.count '\n' := List.count_filter (by decide)
    by_cases hp : p.bare.text = []
    · rw [hp] at hcount
      rw [bare_cons_of_eq_nil hp, stampsFrom, hnil hp, ← hcount, ih _ h]
      rfl
    · rw [bare_cons hp, stampsFrom, stampsFrom, hlexemes, hcount, ih _ h]

/-- **Line endings make no difference** to lexemes and lines, unless a directive or a quoted text
goes on behind a line break. -/
theorem stamps_crlf (hreturn : '\r' ∉ cs) :
    (bare (Piece.split true (crlf cs)) = Piece.split true cs ↔
        ∀ p ∈ Piece.split true cs, ¬ p.GoesOn) ∧
      ((∀ p ∈ Piece.split true cs, ¬ p.GoesOn) → stamps (crlf cs) = stamps cs) := by
  refine ⟨⟨fun h p hp => ?_, bare_split_crlf hreturn rfl⟩, fun hgoesOn => ?_⟩
  · rw [← h] at hp
    obtain ⟨q, hq, rfl⟩ := List.mem_map.mp (List.mem_filter.mp hp).1
    exact fun hgoesOn => not_goesOn_of_mem_split_crlf hq hgoesOn.of_bare
  · have hlexemes : ∀ p ∈ Piece.split true (crlf cs),
        p.bare.lexemes = p.lexemes ∧ (p.bare.text = [] → p.lexemes = []) := by
      intro p hp
      obtain ⟨before, after, hsplit⟩ := List.append_of_mem hp
      exact (Piece.form_of_split hsplit).lexemes_bare
    rw [stamps_eq, stamps_eq, ← stampsFrom_bare 1 hlexemes, bare_split_crlf hreturn rfl hgoesOn]

/-- A definition with a comment of two lines behind it, an enumeration and a line comment. -/
def plainLines : List Char :=
  "#define A 1\n/* one\ntwo */ enum E \x7b B \x7d; // three\n".toList

/-- A text with a comment and a directive has the same stamps with either line ending. -/
theorem stamps_crlf_plainLines :
    bare (Piece.split true (crlf plainLines)) = Piece.split true plainLines ∧
      stamps (crlf plainLines) = stamps plainLines := by
  have hgoesOn : ∀ p ∈ Piece.split true plainLines, ¬ p.GoesOn := by decide +kernel
  obtain ⟨hpieces, hstamps⟩ := @stamps_crlf plainLines (by decide)
  exact ⟨hpieces.mpr hgoesOn, hstamps hgoesOn⟩

/-- A definition that goes on in the next line. -/
def continuedDefinition : List Char :=
  "#define A \\\nenum E \x7b B \x7d;\n".toList

/-- The definition says nothing, but with carriage returns its second line is read as code. -/
theorem not_stamps_crlf_continuedDefinition :
    '\r' ∉ continuedDefinition ∧ stamps continuedDefinition = [] ∧
      (.word "enum", 2) ∈ stamps (crlf continuedDefinition) := by
  decide +kernel

end Enumerant.Header
