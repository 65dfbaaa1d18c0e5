import Enumerant.Proofs.Header.Classification
import Enumerant.Proofs.Header.Collapse
import Enumerant.Proofs.Integer.Numeral

/-!
# The texts of literals in headers

The text that is kept of a constant expression is what stands from its first token to its last one
(`core`), with blanks collapsed. It holds no line break, so what ends with a line does not end in it
any more: `means_iff` shows that the text means the value of the literal unless a line
comment or a directive stands among the pieces that it is made of.
-/

namespace Enumerant.Header

open Text

variable {fresh : Bool} {offset line : Nat} {behind source rest : List Char} {ps : List Piece}
  {p : Piece} {first : Token} {more : List Token} {text t : String} {m : Member} {v : Int}

/-- A text is a constant expression of the value, read from its first token to its last. -/
def Means (t : String) (v : Int) : Prop :=
  constant? ((tokens t.toList).map Token.lexeme) = some v

/-- A text means a value if its pieces do. -/
theorem means_iff_split :
    Means t v ↔ constant? ((Piece.split true t.toList).flatMap Piece.lexemes) = some v := by
  rw [Means, tokens_eq_located, map_lexeme_located]

/-! ### Bare texts -/

/-- A number that stands alone is one piece. -/
theorem split_digits {c : Char} {cs : List Char} (hc : c.isDigit) (hcs : ∀ d ∈ cs, d.isAlphanum) :
    Piece.split fresh (c :: cs) = [⟨.token (numberLexeme (c :: cs)), c :: cs⟩] := by
  have hform : Form fresh [] ⟨.token (numberLexeme (c :: cs)), c :: cs⟩ :=
    .number hc hcs fun d hd => absurd hd (Option.not_mem_none d)
  simpa using Piece.split_of_begins (.of_form hform)

theorem constant?_number (v : Int) : constant? [.integer v] = some v := rfl

theorem constant?_minus (v : Int) : constant? [.mark .minus, .integer v] = checked (-v) := rfl

/-- What a number means, with at most a minus sign in front. -/
theorem means_iff_of_digits {sign digits : List Char} (ht : t.toList = sign ++ digits)
    (hsign : sign = [] ∨ sign = ['-']) (hdigits : ∀ c ∈ digits, c.isAlphanum)
    (hfirst : ∃ c cs, digits = c :: cs ∧ c.isDigit) :
    Means t v ↔ ∃ w, Literal.parse? digits = some w ∧ v = if sign = [] then w else -w := by
  obtain ⟨c, cs, rfl, hc⟩ := hfirst
  have hcs := (List.forall_mem_cons.mp hdigits).2
  rw [means_iff_split, ht]
  rcases hsign with rfl | rfl
  · rw [List.nil_append, split_digits hc hcs, List.flatMap_singleton]
    cases hw : Literal.parse? (c :: cs) with
    | none => simp [Piece.lexemes, numberLexeme, hw, constant?, Expression.parse?, climb, operand,
        Sign.ofLexeme?]
    | some w => simp [Piece.lexemes, numberLexeme, hw, constant?_number, eq_comm]
  · have hminus : Form true (c :: cs) ⟨.token (.mark .minus), ['-']⟩ := .mark (by simp)
    rw [Piece.split_of_begins (.of_form hminus), split_digits hc hcs]
    cases hw : Literal.parse? (c :: cs) with
    | none => simp [Piece.lexemes, numberLexeme, hw, constant?, Expression.parse?, climb, operand,
        Sign.ofLexeme?]
    | some w =>
      obtain ⟨-, hnonneg, -, hlt⟩ := Literal.exists_of_parse?_of_alphanum hdigits hw
      have hfits : Fits (-w) := ⟨by omega, by omega⟩
      have hneg : checked (-w) = some v ↔ v = -w := by
        rw [checked_eq_some_iff, and_iff_right hfits, eq_comm]
      simpa [Piece.lexemes, numberLexeme, hw, constant?_minus] using hneg

/-! ### From the first token to the last -/

/-- A piece that gives a token other than a comment. -/
def Piece.isSolid (p : Piece) : Bool :=
  p.lexemes.any Lexeme.isSolid

/-- The pieces from the first solid one to the last. -/
def core (ps : List Piece) : List Piece :=
  (ps.dropWhile (!·.isSolid)).rdropWhile (!·.isSolid)

/-- The core lies between pieces that are not solid. -/
theorem exists_append_core (ps : List Piece) :
    ∃ before after, ps = before ++ (core ps ++ after) ∧ (∀ p ∈ before, p.isSolid = false) ∧
      ∀ p ∈ after, p.isSolid = false := by
  refine ⟨ps.takeWhile (!·.isSolid), (ps.dropWhile (!·.isSolid)).rtakeWhile (!·.isSolid), ?_, ?_,
    ?_⟩
  · rw [core, List.rdropWhile_append_rtakeWhile, List.takeWhile_append_dropWhile]
  · exact fun p hp => by simpa using List.mem_takeWhile_imp hp
  · exact fun p hp => by simpa using List.mem_rtakeWhile_imp hp

/-- Pieces that are not solid have no tokens that are. -/
theorem filter_located_of_forall (h : ∀ p ∈ ps, p.isSolid = false) :
    (located offset line behind ps).filter (·.lexeme.isSolid) = [] := by
  rw [List.filter_eq_nil_iff]
  intro u hu hsolid
  have hmem : u.lexeme ∈ ps.flatMap Piece.lexemes := by
    rw [← map_lexeme_located offset line behind]
    exact List.mem_map_of_mem hu
  obtain ⟨p, hp, hlex⟩ := List.mem_flatMap.mp hmem
  exact absurd (List.any_eq_true.mpr ⟨_, hlex, hsolid⟩) (by simpa [Piece.isSolid] using h p hp)

/-- The first piece of a core is solid. -/
theorem exists_core_eq_cons (h : core ps ≠ []) : ∃ p mid, core ps = p :: mid ∧ p.isSolid := by
  obtain ⟨p, mid, hcore⟩ := List.exists_cons_of_ne_nil h
  refine ⟨p, mid, hcore, ?_⟩
  obtain ⟨tail, htail⟩ := List.rdropWhile_prefix (!·.isSolid) (ps.dropWhile (!·.isSolid))
  rw [← core, hcore, List.cons_append] at htail
  have hhead := List.head?_dropWhile_not (!Piece.isSolid ·) ps
  simpa [← htail] using hhead

/-- The last piece of a core is solid. -/
theorem exists_core_eq_append (h : core ps ≠ []) : ∃ mid q, core ps = mid ++ [q] ∧ q.isSolid := by
  have hlast := List.rdropWhile_last_not (!Piece.isSolid ·) (ps.dropWhile (!·.isSolid)) h
  exact ⟨_, _, (List.dropLast_append_getLast h).symm, by simpa [core] using hlast⟩

/-- A lexeme other than a stray is all of its piece. -/
theorem Piece.kind_of_mem_lexemes {l : Lexeme} (h : l ∈ p.lexemes) (hl : ∀ b, l ≠ .stray b) :
    p.kind = .token l := by
  unfold lexemes at h
  split at h
  case h_1 hkind =>
    obtain rfl := List.mem_singleton.mp h
    exact hkind
  case h_2 =>
    obtain ⟨b, -, rfl⟩ := List.mem_map.mp h
    exact absurd rfl (hl b)
  case h_3 => exact absurd h List.not_mem_nil

/-- A solid piece without strays gives one token. -/
theorem Piece.exists_of_isSolid (h : p.isSolid) (hstray : ∀ b, .stray b ∉ p.lexemes) :
    ∃ lexeme, p.kind = .token lexeme ∧ lexeme.isSolid := by
  obtain ⟨l, hl, hsolid⟩ := List.any_eq_true.mp h
  refine ⟨l, kind_of_mem_lexemes hl ?_, hsolid⟩
  rintro b rfl
  exact hstray b hl

theorem Piece.isSolid_of_kind {l : Lexeme} (h : p.kind = .token l) (hl : l.isSolid) :
    p.isSolid := by
  simp [isSolid, lexemes, h, hl]

/-- The tokens of a solid piece go from its start to its end. -/
theorem Piece.exists_tokens_of_isSolid (h : p.isSolid) (offset line : Nat) (onward : List UInt8) :
    ∃ t us, (p.tokens offset line onward).filter (·.lexeme.isSolid) = t :: us ∧
      t.start = offset ∧ t.onward = onward ∧
      (us.getLastD t).stop = offset + byteLength p.text := by
  rcases hkind : p.kind with _ | _ | _ | _ | l | _
  case token =>
    have hl : l.isSolid := by simpa [isSolid, lexemes, hkind] using h
    refine ⟨⟨l, line, offset, offset + byteLength p.text, onward⟩, [], ?_, rfl, rfl, rfl⟩
    simp [tokens, hkind, hl]
  -- Characters beyond ASCII make one token for each of their bytes.
  case strays =>
    obtain ⟨b, bs, hbytes⟩ : ∃ b bs, p.text.flatMap String.utf8EncodeChar = b :: bs := by
      refine List.exists_cons_of_ne_nil fun hnil => ?_
      simp [isSolid, lexemes, hkind, hnil] at h
    have hlength : byteLength p.text = bs.length + 1 := by
      rw [← length_flatMap_utf8EncodeChar, hbytes, List.length_cons]
    have hsolid : ∀ u ∈ p.tokens offset line onward, u.lexeme.isSolid := by
      intro u hu
      simp only [tokens, hkind] at hu
      obtain ⟨i, hi, rfl⟩ := List.mem_mapIdx.mp hu
      rfl
    rw [List.filter_eq_self.mpr hsolid, tokens, hkind]
    simp only [hbytes, List.mapIdx_cons]
    refine ⟨_, _, rfl, rfl, rfl, ?_⟩
    rcases List.eq_nil_or_concat bs with rfl | ⟨cs, c, rfl⟩
    · rw [hlength]
      rfl
    · rw [hlength, List.concat_eq_append, List.mapIdx_concat, List.getLastD_concat]
      simp only [List.length_append, List.length_singleton]
      omega
  all_goals simp [isSolid, lexemes, hkind] at h

/-- The tokens of pieces go from the start of the first one to the end of the last, if both are
solid. -/
theorem exists_ends_of_located {q : Piece} {mid mid' : List Piece} (hfirst : ps = p :: mid)
    (hp : p.isSolid) (hlast : ps = mid' ++ [q]) (hq : q.isSolid)
    (h : (located offset line behind ps).filter (·.lexeme.isSolid) = first :: more) :
    first.start = offset ∧
      first.onward = (ps.flatMap Piece.text ++ behind).flatMap String.utf8EncodeChar ∧
      (more.getLastD first).stop = offset + byteLength (ps.flatMap Piece.text) := by
  have hstart : first.start = offset ∧
      first.onward = (ps.flatMap Piece.text ++ behind).flatMap String.utf8EncodeChar := by
    obtain ⟨t, us, htokens, hstart, honward, -⟩ :=
      p.exists_tokens_of_isSolid hp offset line
        (((p :: mid).flatMap Piece.text ++ behind).flatMap String.utf8EncodeChar)
    rw [hfirst, located, List.filter_append, htokens, List.cons_append, List.cons.injEq] at h
    rw [← h.1, hfirst]
    exact ⟨hstart, honward⟩
  refine ⟨hstart.1, hstart.2, ?_⟩
  rw [hlast, located_append, located, located, List.append_nil, List.filter_append] at h
  obtain ⟨t, us, htokens, -, -, hstop⟩ :=
    q.exists_tokens_of_isSolid hq (offset + byteLength (mid'.flatMap Piece.text))
      (line + (mid'.flatMap Piece.text).count '\n')
      (([q].flatMap Piece.text ++ behind).flatMap String.utf8EncodeChar)
  rw [htokens] at h
  have hgetLast := congrArg List.getLast? h
  rw [List.getLast?_append, List.getLast?_cons, List.getLast?_cons, Option.some_or,
    Option.some_inj, ← List.getLastD_eq_getLast?, ← List.getLastD_eq_getLast?] at hgetLast
  rw [← hgetLast, hstop, hlast, List.flatMap_append, List.flatMap_singleton, byteLength_append,
    Nat.add_assoc]

/-- The text from the first token of some pieces to the last one is all of their text, if both ends
are solid. -/
theorem textBetween?_of_ends {q : Piece} {mid mid' : List Piece} (hfirst : ps = p :: mid)
    (hp : p.isSolid) (hlast : ps = mid' ++ [q]) (hq : q.isSolid)
    (h : (located offset line behind ps).filter (·.lexeme.isSolid) = first :: more) :
    textBetween? first (more.getLastD first) = some (ps.flatMap Piece.text) := by
  obtain ⟨hstart, honward, hstop⟩ := exists_ends_of_located hfirst hp hlast hq h
  have hlength : byteLength (ps.flatMap Piece.text) =
      ((ps.flatMap Piece.text).flatMap String.utf8EncodeChar).length :=
    (length_flatMap_utf8EncodeChar _).symm
  rw [textBetween?, hstop, hstart, honward, Nat.add_sub_cancel_left, List.flatMap_append, hlength,
    List.take_left, if_pos ⟨Nat.le_add_right _ _, by simp⟩]
  exact decode?_eq_some_iff.mpr rfl

/-- The tokens of pieces, comments apart, are those of their core. -/
theorem exists_located_core (offset line : Nat) (behind : List Char) (ps : List Piece) :
    ∃ before after line' behind', ps = before ++ (core ps ++ after) ∧
      (located offset line behind ps).filter (·.lexeme.isSolid) =
        (located (offset + byteLength (before.flatMap Piece.text)) line' behind' (core ps)).filter
          (·.lexeme.isSolid) := by
  obtain ⟨before, after, hps, hbefore, hafter⟩ := exists_append_core ps
  refine ⟨before, after, line + (before.flatMap Piece.text).count '\n',
    after.flatMap Piece.text ++ behind, hps, ?_⟩
  conv_lhs => rw [hps, located_append, located_append]
  rw [List.filter_append, List.filter_append, filter_located_of_forall hbefore,
    filter_located_of_forall hafter, List.nil_append, List.append_nil]

/-- The tokens of pieces go from the start of their core to its end. -/
theorem exists_core_of_located
    (h : (located offset line behind ps).filter (·.lexeme.isSolid) = first :: more) :
    ∃ before after, ps = before ++ (core ps ++ after) ∧
      first.start = offset + byteLength (before.flatMap Piece.text) ∧
      (more.getLastD first).stop = first.start + byteLength ((core ps).flatMap Piece.text) ∧
      textBetween? first (more.getLastD first) = some ((core ps).flatMap Piece.text) := by
  obtain ⟨before, after, line', behind', hps, hcore⟩ := exists_located_core offset line behind ps
  rw [hcore] at h
  have hne : core ps ≠ [] := by
    intro hnil
    simp [hnil, located] at h
  obtain ⟨p, mid, hfirst, hp⟩ := exists_core_eq_cons hne
  obtain ⟨mid', q, hlast, hq⟩ := exists_core_eq_append hne
  obtain ⟨hstart, -, hstop⟩ := exists_ends_of_located hfirst hp hlast hq h
  exact ⟨before, after, hps, hstart, by rw [hstop, hstart],
    textBetween?_of_ends hfirst hp hlast hq h⟩

/-- The lexemes of an initializer are those of its core, comments apart. -/
theorem map_lexeme_eq_core
    (h : (located offset line behind ps).filter (·.lexeme.isSolid) = first :: more) :
    (first :: more).map Token.lexeme =
      ((core ps).flatMap Piece.lexemes).filter Lexeme.isSolid := by
  obtain ⟨before, -, line', behind', -, hcore⟩ := exists_located_core offset line behind ps
  rw [← h, hcore, ← map_lexeme_located, List.filter_map]
  rfl

/-! ### What ends with a line -/

/-- A piece that goes up to the end of its line. -/
def Piece.EndsWithLine (p : Piece) : Prop :=
  p.kind = .directive ∨ ∃ text, p.kind = .token (.remark text)

/-- A quoted text that a line break ended, not its quote. -/
def Piece.IsBroken (p : Piece) : Prop :=
  p.kind = .quoted ∧ p.text.getLast? = some '\n'

/-- A piece that ends with its line gives no token but a comment. -/
theorem Piece.EndsWithLine.isSolid_eq_false (h : p.EndsWithLine) : p.isSolid = false := by
  rcases h with h | ⟨text, h⟩ <;> simp [Piece.isSolid, Piece.lexemes, Lexeme.isSolid, h]

/-- On the line of a piece that is neither blank nor a directive, no place behind it is fresh. -/
theorem freshAfter_eq_false (hlines : ∀ p ∈ ps, '\n' ∉ p.text)
    (hp : ∃ p ∈ ps, p.kind ≠ .blank ∧ p.kind ≠ .directive) :
    Piece.freshAfter fresh ps = false := by
  have hstay : ∀ ps : List Piece, (∀ p ∈ ps, '\n' ∉ p.text) →
      Piece.freshAfter false ps = false := by
    intro ps
    induction ps with
    | nil => exact fun _ => rfl
    | cons p ps ih =>
      intro h
      obtain ⟨hp, h⟩ := List.forall_mem_cons.mp h
      simpa [Piece.freshAfter, Piece.leavesFresh, hp] using ih h
  induction ps generalizing fresh with
  | nil => simp at hp
  | cons p ps ih =>
    obtain ⟨hline, hlines⟩ := List.forall_mem_cons.mp hlines
    rcases (List.exists_mem_cons_iff _ _ _).mp hp with hp | hp
    · have hleaves : p.leavesFresh fresh = false := by simp [Piece.leavesFresh, hline, hp]
      rw [Piece.freshAfter, List.foldl_cons, hleaves]
      exact hstay ps hlines
    · exact ih hlines hp

/-- A lexeme comes from a piece that is neither blank nor a directive. -/
theorem exists_of_mem_lexemes {l : Lexeme} (hl : l ∈ ps.flatMap Piece.lexemes) :
    ∃ p ∈ ps, p.kind ≠ .blank ∧ p.kind ≠ .directive := by
  obtain ⟨p, hp, hl⟩ := List.mem_flatMap.mp hl
  refine ⟨p, hp, ?_, ?_⟩ <;> intro hk <;> simp [Piece.lexemes, hk] at hl

/-- Where blanks are collapsed, a piece that ends with its line gives a lexeme that no constant
expression has. -/
theorem exists_lexeme_of_endsWithLine (h : Form fresh rest p) (hp : p.EndsWithLine)
    (after : Bool) (cs : List Char) :
    ∃ l ∈ (Piece.split false (squeeze after p.text ++ cs)).flatMap Piece.lexemes,
      (∀ v, l ≠ .integer v) ∧ ∀ q, l ≠ .mark q := by
  cases h with
  | directive =>
    have hc : Piece.StandsAlone false '#' :=
      ⟨by decide, by simp, by decide, by decide, by decide, by decide⟩
    refine ⟨.stray 35, ?_, by simp, by simp⟩
    rw [squeeze_cons_of_not_blank (by decide), List.cons_append, Piece.split,
      Piece.classify_of_standsAlone hc]
    exact List.mem_append_left _ List.mem_cons_self
  | remark =>
    rw [squeeze_cons_of_not_blank (by decide), squeeze_cons_of_not_blank (by decide),
      List.cons_append, List.cons_append, Piece.split, Piece.classify_slash,
      if_pos (by rfl)]
    exact ⟨.remark _, List.mem_append_left _ List.mem_cons_self, by simp, by simp⟩
  | number =>
    rcases hp with hp | ⟨w, hp⟩
    · cases hp
    · exact absurd (Piece.Kind.token.inj hp) (numberLexeme_ne_remark _ _)
  | _ => rcases hp with hp | ⟨w, hp⟩ <;> cases hp

/-! ### What the text of a literal means -/

/-- The first piece of some kind. -/
theorem exists_first {P : Piece → Prop} (h : ¬ ∀ p ∈ ps, ¬ P p) :
    ∃ good p rest, ps = good ++ p :: rest ∧ P p ∧ ∀ q ∈ good, ¬ P q := by
  induction ps with
  | nil => exact absurd (fun p hp => absurd hp List.not_mem_nil) h
  | cons p ps ih =>
    by_cases hp : P p
    · exact ⟨[], p, ps, rfl, hp, fun q hq => absurd hq List.not_mem_nil⟩
    · obtain ⟨good, q, rest, rfl, hq, hgood⟩ :=
        ih fun hps => h (List.forall_mem_cons.mpr ⟨hp, hps⟩)
      exact ⟨p :: good, q, rest, rfl, hq, List.forall_mem_cons.mpr ⟨hp, hgood⟩⟩

/-- The lexemes of a constant expression are numbers and punctuation. -/
theorem exists_of_constant? {ls : List Lexeme} {l : Lexeme} (h : constant? ls = some v)
    (hl : l ∈ ls) : (∃ w, l = .integer w) ∨ ∃ q, l = .mark q := by
  obtain ⟨e, he, -⟩ := constant?_eq_some_iff.mp h
  exact he.exists_of_mem hl

section Constant

variable {mid mid' : List Piece} {q : Piece}
  (hps : Piece.split fresh source = ps) (hfirst : ps = p :: mid) (hp : p.isSolid)
  (hlast : ps = mid' ++ [q]) (hq : q.isSolid)
  (hv : constant? ((ps.flatMap Piece.lexemes).filter Lexeme.isSolid) = some v)
  (hbroken : ∀ p ∈ ps, ¬ p.IsBroken)

include hv in
/-- There are no strays in a constant expression. -/
theorem not_stray_of_constant? (hr : p ∈ ps) (b : UInt8) : .stray b ∉ p.lexemes := by
  intro hb
  rcases exists_of_constant? hv
    (List.mem_filter.mpr ⟨List.mem_flatMap.mpr ⟨p, hr, hb⟩, rfl⟩) with ⟨w, hw⟩ | ⟨q, hq⟩
  · cases hw
  · cases hq

include hps hv hbroken in
/-- A piece of a constant expression is kept when blanks are collapsed. -/
theorem keeps_of_constant? {r : Piece} (hr : r ∈ ps) (hline : ¬ r.EndsWithLine) : r.Keeps where
  not_directive h := hline (.inl h)
  not_strays h := by
    have hplain := Piece.isPlain_of_lexemes (p := r)
      (Piece.text_ne_nil_of_mem_split (hps ▸ hr)) (by simp [h])
      (not_stray_of_constant? hv hr)
    exact hplain.2.1 h
  not_remark text h := hline (.inr ⟨text, h⟩)
  quoted h hnewline := hbroken r hr ⟨h, hnewline⟩

include hps hlast hq hv in
theorem blankAfter_of_constant? : blankAfter true source = false := by
  obtain ⟨l, hkind, hsolid⟩ := Piece.exists_of_isSolid hq
    (not_stray_of_constant? hv (by simp [hlast]))
  have hform := Piece.form_of_split (hps.trans hlast)
  rw [← Piece.flatMap_text_split fresh source, hps, hlast, List.flatMap_append,
    List.flatMap_singleton, blankAfter_append]
  refine blankAfter_of_forall (hform.not_isBlank hkind hsolid) ?_
  exact @Piece.text_ne_nil_of_mem_split fresh source q (by simp [hps, hlast])

include hlast hq hv in
/-- The last piece is no quoted text. -/
theorem kind_ne_quoted_of_constant? : ∀ r ∈ ps.getLast?, r.kind ≠ .quoted := by
  obtain ⟨l, hkind, -⟩ := Piece.exists_of_isSolid hq
    (not_stray_of_constant? hv (by simp [hlast]))
  rw [hlast, List.getLast?_append, List.getLast?_singleton]
  rintro r ⟨⟩
  simp [hkind]

include hfirst hp in
/-- A piece that ends with its line is not the first: that one is solid. -/
theorem mem_of_endsWithLine {good rest : List Piece} {bad : Piece} (hcut : ps = good ++ bad :: rest)
    (hbad : bad.EndsWithLine) : p ∈ good := by
  rcases good with - | ⟨r, good⟩
  · obtain ⟨rfl, -⟩ := List.cons.inj (hfirst.symm.trans hcut)
    exact absurd hp (by simp [hbad.isSolid_eq_false])
  · obtain ⟨rfl, -⟩ := List.cons.inj (hfirst.symm.trans hcut)
    exact List.mem_cons_self

include hps hlast hq hv hbroken in
/-- Collapsing blanks keeps the value if nothing ends with its line. -/
theorem constant?_squeeze_of_forall (hline : ∀ r ∈ ps, ¬ r.EndsWithLine) :
    constant? ((Piece.split true (squeeze true source)).flatMap Piece.lexemes) = some v := by
  obtain ⟨ps', hsplit, -, hlexemes⟩ := exists_split_squeeze
    (hps.trans (List.append_nil ps).symm)
    (fun r hr => keeps_of_constant? hps hv hbroken hr (hline r hr))
    (by simpa using kind_ne_quoted_of_constant? hlast hq hv) true true
  rw [hsplit, List.flatMap_nil, squeeze_nil, Piece.split_nil, List.append_nil, hlexemes, ← hv]
  congr 1
  refine (List.filter_eq_self.mpr fun l hl => Lexeme.isSolid_iff.mpr ?_).symm
  rintro text rfl
  obtain ⟨r, hr, hl⟩ := List.mem_flatMap.mp hl
  exact hline r hr (.inr ⟨text, Piece.kind_of_mem_lexemes hl (by simp)⟩)

include hps hfirst hp hlast hq hv hbroken

/-- If it does keep the value, nothing ends with its line. -/
theorem not_endsWithLine_of_constant?_squeeze
    (h : constant? ((Piece.split true (squeeze true source)).flatMap Piece.lexemes) = some v) :
    ∀ r ∈ ps, ¬ r.EndsWithLine := by
  by_contra hline
  -- Up to the first piece that ends with its line nothing changes.
  obtain ⟨good, bad, rest, hcut, hbad, hgood⟩ := exists_first hline
  obtain ⟨ps', hsplit, htexts, hlexemes⟩ := exists_split_squeeze (hps.trans hcut)
    (fun r hr => keeps_of_constant? hps hv hbroken (by simp [hcut, hr]) (hgood r hr))
    (hcut ▸ kind_ne_quoted_of_constant? hlast hq hv) true true
  have hfresh : Piece.freshAfter true ps' = false := by
    obtain ⟨l, hl, -⟩ := List.any_eq_true.mp hp
    have hmem : l ∈ ps'.flatMap Piece.lexemes := by
      rw [hlexemes]
      exact List.mem_flatMap.mpr ⟨p, mem_of_endsWithLine hfirst hp hcut hbad, hl⟩
    have hnewline : '\n' ∉ ps'.flatMap Piece.text := htexts ▸ newline_not_mem_squeeze
    exact freshAfter_eq_false (fun p hp h => hnewline (List.mem_flatMap.mpr ⟨p, hp, h⟩))
      (exists_of_mem_lexemes hmem)
  -- On one line that piece becomes a lexeme that no constant expression has.
  obtain ⟨l, hl, hinteger, hmark⟩ := exists_lexeme_of_endsWithLine
    (Piece.form_of_split (hps.trans hcut)) hbad (blankAfter true (good.flatMap Piece.text))
    (squeeze (blankAfter (blankAfter true (good.flatMap Piece.text)) bad.text)
      (rest.flatMap Piece.text))
  rw [hsplit, hfresh, List.flatMap_cons, squeeze_append, List.flatMap_append] at h
  rcases exists_of_constant? h (List.mem_append_right _ hl) with ⟨w, hw⟩ | ⟨r, hr⟩
  · exact hinteger w hw
  · exact hmark r hr

/-- **What is left of a text when its blanks are collapsed** is the same constant expression exactly
if nothing in it ends with a line. -/
theorem constant?_collapsed_iff :
    constant? ((Piece.split true (collapsed source)).flatMap Piece.lexemes) = some v ↔
      ∀ p ∈ ps, ¬ p.EndsWithLine := by
  rw [collapsed_eq_squeeze (blankAfter_of_constant? hps hlast hq hv)]
  exact ⟨not_endsWithLine_of_constant?_squeeze hps hfirst hp hlast hq hv hbroken,
    constant?_squeeze_of_forall hps hlast hq hv hbroken⟩

end Constant

/-- The core of a text is what its own text is divided into. -/
theorem exists_split_core (fresh : Bool) (source : List Char) :
    ∃ fresh', Piece.split fresh' ((core (Piece.split fresh source)).flatMap Piece.text) =
      core (Piece.split fresh source) := by
  obtain ⟨before, after, hps, -, -⟩ := exists_append_core (Piece.split fresh source)
  have hsource := Piece.flatMap_text_split fresh source
  rw [hps, List.flatMap_append, List.flatMap_append] at hsource
  obtain ⟨-, hsplit⟩ := Piece.split_of_append ((congrArg _ hsource).trans hps) rfl
  exact ⟨_, (Piece.split_of_append hsplit rfl).1⟩

/-- The value of a literal is that of the tokens in the core of its initializer, whose text is that
of the core. -/
theorem Written.constant?_core (h : Written text m source) (hm : m.value = .literal v t) :
    constant? (((core (Piece.split false source)).flatMap Piece.lexemes).filter Lexeme.isSolid) =
        some v ∧
      core (Piece.split false source) ≠ [] ∧
      t.toList = collapsed ((core (Piece.split false source)).flatMap Piece.text) := by
  obtain ⟨offset, line, behind, first, more, hlocated, hvalue⟩ := h.exists_located
  rw [hm] at hvalue
  have hv : constant? ((first :: more).map Token.lexeme) = some v ∧
      sourceText first (more.getLastD first) = t := by
    rcases classify_cases first more with ⟨name, -, hclass⟩ | ⟨w, hw, hclass⟩ | ⟨-, -, hclass⟩ <;>
      rw [hclass] at hvalue <;> cases hvalue
    exact ⟨hw, rfl⟩
  obtain ⟨hv, htext⟩ := hv
  obtain ⟨-, -, -, -, -, hbetween⟩ := exists_core_of_located hlocated
  rw [sourceText, hbetween, Option.getD_some] at htext
  rw [map_lexeme_eq_core hlocated] at hv
  refine ⟨hv, ?_, by rw [← htext, String.toList_ofList]⟩
  intro hnil
  have hlexemes := map_lexeme_eq_core hlocated
  simp [hnil] at hlexemes

/-- **What the text of a literal is, and when it means the value.** -/
theorem Written.means_iff (h : Written text m source) (hm : m.value = .literal v t) :
    t.toList = collapsed ((core (Piece.split false source)).flatMap Piece.text) ∧
      '\n' ∉ t.toList ∧
      ((∀ p ∈ core (Piece.split false source), ¬ p.IsBroken) →
        (Means t v ↔ ∀ p ∈ core (Piece.split false source), ¬ p.EndsWithLine)) := by
  obtain ⟨hv, hne, hlist⟩ := h.constant?_core hm
  obtain ⟨fresh, hsplit⟩ := exists_split_core false source
  obtain ⟨p, mid, hfirst, hp⟩ := exists_core_eq_cons hne
  obtain ⟨mid', q, hlast, hq⟩ := exists_core_eq_append hne
  refine ⟨hlist, ?_, fun hbroken => ?_⟩
  · rw [hlist, collapsed_eq_squeeze (blankAfter_of_constant? hsplit hlast hq hv)]
    exact newline_not_mem_squeeze
  · rw [means_iff_split, hlist]
    exact constant?_collapsed_iff hsplit hfirst hp hlast hq hv hbroken

end Enumerant.Header
