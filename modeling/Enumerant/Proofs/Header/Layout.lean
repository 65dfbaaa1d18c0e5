import Mathlib.Data.List.Chain
import Enumerant.Proofs.Header.Abstract
import Enumerant.Proofs.Header.Chunk
import Enumerant.Proofs.Header.LiteralText

/-!
# Tokens laid out with white space

A layout of tokens is a text with some white space between any two of them, and possibly more in
front and behind (`Layout`). Its tokens are the ones that were laid out (`Layout.renders`): every
token ends where its white space begins, so that no two of them run together and no comment opens.

`Renders` keeps what readers need to know of tokens that came from a layout. It may be cut between
any two tokens (`Renders.append`), and the text from the first token to the last one, with blanks
collapsed, is that of the tokens with single spaces (`Renders.sourceText_eq`).
-/

namespace Enumerant.Header

open Text

namespace Abstract

variable {as bs : List Atom} {a : Atom} {s : String} {rest : List Char} {t first : Token}
  {ts more : List Token}

/-! ### White space behind tokens -/

/-- A token with the white space behind it. -/
structure Spaced where
  atom : Atom
  gap : String
  isSpace : ∀ c ∈ gap.toList, isSpace c

/-- The text of tokens with the white space behind each of them. -/
def typeset : List Spaced → String
  | [] => ""
  | s :: ls => s.atom.text ++ (s.gap ++ typeset ls)

/-- There is white space between any two tokens. -/
def Apart (ls : List Spaced) : Prop :=
  ls.IsChain fun s _ => s.gap ≠ ""

/-- A layout of tokens: the white space in front of them and behind each of them. -/
structure Layout (as : List Atom) where
  front : String
  spaced : List Spaced
  isSpace : ∀ c ∈ front.toList, isSpace c
  apart : Apart spaced
  map_atom : spaced.map Spaced.atom = as

/-- The text of a layout. -/
def Layout.text (l : Layout as) : String :=
  l.front ++ typeset l.spaced

/-- All tokens can be laid out: on one line, with a single space behind each of them. -/
instance (as : List Atom) : Inhabited (Layout as) where
  default :=
    { front := ""
      spaced := as.map fun a => ⟨a, " ", by simp [Header.isSpace]⟩
      isSpace := by simp
      apart := by
        rw [Apart, List.isChain_map]
        exact (List.pairwise_of_forall fun _ _ => by simp).isChain
      map_atom := by
        rw [List.map_map]
        exact List.map_id as }

/-! ### Pieces -/

/-- What the piece of a token is. -/
def Atom.kind : Atom → Piece.Kind
  | .word w => .token (.word w.text)
  | .number n => .token (numberLexeme n.text.toList)
  | .mark p => .token (.mark p)
  | .other _ _ => .strays

/-- The piece of a token. -/
def Atom.piece (a : Atom) : Piece :=
  ⟨a.kind, a.text.toList⟩

/-- Other punctuation has a code of ASCII and opens nothing. -/
theorem code_of_isOther {c : Char} (h : isOther c) :
    ((33 ≤ c.toNat ∧ c.toNat ≤ 47) ∨ (58 ≤ c.toNat ∧ c.toNat ≤ 64) ∨
      (91 ≤ c.toNat ∧ c.toNat ≤ 96) ∨ (123 ≤ c.toNat ∧ c.toNat ≤ 126)) ∧
    Punctuation.ofChar? c = none ∧ c ≠ '#' ∧ c.toNat ≠ 0x22 ∧ c.toNat ≠ 0x27 ∧ c.toNat ≠ 95 := by
  simp only [isOther, isPunctuation, Bool.and_eq_true, Bool.or_eq_true, decide_eq_true_eq,
    Option.isNone_iff_eq_none] at h
  obtain ⟨⟨⟨⟨⟨hcode, hmark⟩, hhash⟩, h₁⟩, h₂⟩, h₃⟩ := h
  refine ⟨by omega, hmark, hhash, h₁, h₂, fun h => h₃ (Char.toNat_inj.mp h)⟩

/-- A token is the piece of its lexeme. -/
theorem Atom.lexemes_piece (a : Atom) : a.piece.lexemes = [a.lexeme] := by
  cases a with
  | other c h =>
    have hc : c.val.toNat ≤ 127 := by
      have hcode := (code_of_isOther h).1
      rw [Char.toNat] at hcode
      omega
    rw [piece, Piece.lexemes, kind, text, String.toList_singleton, List.flatMap_singleton,
      String.utf8EncodeChar, if_pos hc]
    rfl
  | _ => rfl

/-- There are no blanks in tokens. -/
theorem Atom.not_isBlank (a : Atom) : ∀ c ∈ a.text.toList, isBlank c = false := by
  cases a with
  | word w => exact fun c hc => not_isBlank_of_isWordChar (w.isWord.2 c hc)
  | number n => exact fun c hc => not_isBlank_of_isAlphanum (n.isAlphanum c hc)
  | mark p =>
    rw [text, String.toList_ofList]
    cases p <;> simp [Punctuation.text, isBlank]
  | other c h =>
    have hc := (code_of_isOther h).1
    rw [text, String.toList_singleton, List.forall_mem_singleton, ← Bool.not_eq_true, isBlank_iff]
    omega

theorem Atom.text_ne_nil (a : Atom) : a.text.toList ≠ [] := by
  cases a with
  | word w =>
    obtain ⟨c, cs, hw, -⟩ := w.isWord.exists_cons
    simp [text, hw]
  | number n =>
    intro hn
    have := n.startsWithDigit
    rw [text] at hn
    simp [hn] at this
  | mark p => cases p <;> simp [text, Punctuation.text]
  | other c h => simp [text]

/-- A token is a piece in front of white space. -/
theorem Atom.form (a : Atom) (hrest : ∀ c ∈ rest.head?, isSpace c) (fresh : Bool) :
    Form fresh rest a.piece := by
  cases a with
  | word w =>
    obtain ⟨c, cs, hw, hc, hcs⟩ := w.isWord.exists_cons
    rw [piece, kind, text, ← String.ofList_toList (s := w.text), hw, String.toList_ofList]
    exact .word hc hcs fun d hd => not_isWordChar_of_isSpace (hrest d hd)
  | number n =>
    obtain ⟨c, hhead, hc⟩ := (Option.any_eq_true _ _).mp n.startsWithDigit
    obtain ⟨cs, hn⟩ := List.head?_eq_some_iff.mp hhead
    have hcs : ∀ d ∈ cs, d.isAlphanum := fun d hd =>
      n.isAlphanum d (hn ▸ List.mem_cons_of_mem c hd)
    rw [piece, kind, text, hn]
    refine .number hc hcs fun d hd => Bool.eq_false_iff.mpr (mt isWordChar_of_isAlphanum ?_)
    exact Bool.eq_false_iff.mp (not_isWordChar_of_isSpace (hrest d hd))
  | mark p =>
    rw [piece, kind, text, String.toList_ofList]
    -- Only a slash could be the start of something longer, and white space follows it.
    refine .mark fun _ => ⟨fun h => ?_, fun h => ?_⟩
    · exact absurd (hrest _ h) (by decide)
    · exact absurd (hrest _ h) (by decide)
  | other c h =>
    obtain ⟨hc, hmark, hhash, h₁, h₂, h₃⟩ := code_of_isOther h
    rw [piece, kind, text, String.toList_singleton]
    refine .strays ⟨?_, ?_, ?_, ?_, ?_, ?_⟩ hmark fun hlt hhead => ?_
    · rw [isSpace_iff]
      omega
    · exact fun h => hhash h.1
    · rintro rfl
      cases hmark
    · omega
    · rw [isDigit_iff]
      omega
    · rw [isWordStart_iff]
      omega
    · have := isSpace_iff.mp (hrest c hhead)
      omega

/-! ### Dividing a layout -/

/-- The pieces of white space. -/
def blanks (s : String) : List Piece :=
  s.toList.map fun c => ⟨.blank, [c]⟩

/-- The pieces of a token and of the white space behind it. -/
def Spaced.pieces (s : Spaced) : List Piece :=
  s.atom.piece :: blanks s.gap

theorem flatMap_text_blanks (s : String) : (blanks s).flatMap Piece.text = s.toList := by
  rw [blanks, List.flatMap_map]
  exact List.flatMap_singleton' _

theorem flatMap_lexemes_blanks (s : String) : (blanks s).flatMap Piece.lexemes = [] := by
  simp [blanks, Piece.lexemes]

/-- White space has no tokens. -/
theorem located_blanks (offset line : Nat) (behind : List Char) (s : String) :
    located offset line behind (blanks s) = [] := by
  have hlexemes := map_lexeme_located offset line behind (blanks s)
  rw [flatMap_lexemes_blanks] at hlexemes
  exact List.map_eq_nil_iff.mp hlexemes

/-- White space is divided into its characters. -/
theorem divides_blanks (hs : ∀ c ∈ s.toList, isSpace c) (rest : List Char) :
    Piece.Divides s rest (blanks s) := by
  unfold Piece.Divides blanks
  generalize s.toList = cs at hs
  induction cs with
  | nil => exact fun fresh => rfl
  | cons c cs ih =>
    obtain ⟨hc, hcs⟩ := List.forall_mem_cons.mp hs
    intro fresh
    have hblank : Form fresh (cs ++ rest) ⟨.blank, [c]⟩ := .blank hc
    have hsplit := Piece.split_of_begins (.of_form hblank)
    rw [ih hcs] at hsplit
    exact hsplit

/-- A layout is divided between its tokens and the white space behind them. -/
theorem divides_typeset {ls : List Spaced} (h : Apart ls) :
    Piece.Divides (typeset ls) [] (ls.flatMap Spaced.pieces) := by
  induction ls with
  | nil => exact .nil []
  | cons s ls ih =>
    obtain ⟨hgap, hls⟩ := List.isChain_cons.mp h
    have hhead : ∀ c ∈ ((s.gap ++ typeset ls).toList ++ []).head?, isSpace c := by
      rw [List.append_nil, String.toList_append]
      cases hcs : s.gap.toList with
      | cons d cs =>
        rintro c ⟨⟩
        exact s.isSpace d (hcs ▸ List.mem_cons_self)
      | nil =>
        -- Without white space behind it, the token is the last one.
        obtain rfl : ls = [] := by
          cases ls with
          | nil => rfl
          | cons u ls => exact absurd (String.toList_eq_nil_iff.mp hcs) (hgap u rfl)
        exact fun c hc => absurd hc (Option.not_mem_none c)
    have hatom : Piece.Divides s.atom.text ((s.gap ++ typeset ls).toList ++ []) [s.atom.piece] :=
      .of_form (s.atom.form hhead)
    exact hatom.append ((divides_blanks s.isSpace _).append (ih hls))

/-! ### Tokens of a layout -/

/-- Tokens that come from a layout of others, or from some of a layout. -/
def Renders (as : List Atom) (ts : List Token) : Prop :=
  ∃ ls : List Spaced, ls.map Spaced.atom = as ∧ Apart ls ∧
    ∃ offset line behind, ts = located offset line behind (ls.flatMap Spaced.pieces)

/-- **A layout has the tokens that were laid out.** -/
theorem Layout.renders (l : Layout as) : Renders as (tokens l.text.toList) := by
  have hfront : Piece.Divides l.front ((typeset l.spaced).toList ++ []) (blanks l.front) :=
    divides_blanks l.isSpace _
  have hsplit := hfront.append (divides_typeset l.apart) true
  rw [List.append_nil, Piece.split_nil, List.append_nil] at hsplit
  refine ⟨l.spaced, l.map_atom, l.apart, ?_⟩
  rw [tokens_eq_located, Layout.text, hsplit, located_append, located_blanks, List.nil_append]
  exact ⟨_, _, _, rfl⟩

namespace Renders

/-- Tokens of a layout are those that were laid out. -/
theorem map_lexeme (h : Renders as ts) : ts.map Token.lexeme = as.map Atom.lexeme := by
  obtain ⟨ls, rfl, -, offset, line, behind, rfl⟩ := h
  have hpieces : ∀ s : Spaced, s.pieces.flatMap Piece.lexemes = [s.atom.lexeme] := by
    intro s
    rw [Spaced.pieces, List.flatMap_cons, Atom.lexemes_piece, flatMap_lexemes_blanks]
    rfl
  rw [map_lexeme_located, List.flatMap_assoc, List.map_map, List.map_eq_flatMap]
  exact List.flatMap_congr fun s _ => hpieces s

/-- A layout may be cut between any two tokens. -/
theorem append (h : Renders (as ++ bs) ts) :
    ∃ us vs, ts = us ++ vs ∧ Renders as us ∧ Renders bs vs := by
  obtain ⟨ls, hls, hapart, offset, line, behind, rfl⟩ := h
  obtain ⟨ls₁, ls₂, rfl, h₁, h₂⟩ := List.map_eq_append_iff.mp hls
  rw [List.flatMap_append, located_append]
  exact ⟨_, _, rfl, ⟨ls₁, h₁, hapart.left_of_append, _, _, _, rfl⟩,
    ⟨ls₂, h₂, hapart.right_of_append, _, _, _, rfl⟩⟩

theorem eq_nil (h : Renders [] ts) : ts = [] :=
  List.map_eq_nil_iff.mp h.map_lexeme

/-- The first token of a layout. -/
theorem exists_cons (h : Renders (a :: as) ts) :
    ∃ t us, ts = t :: us ∧ t.lexeme = a.lexeme ∧ Renders as us := by
  rw [← List.singleton_append] at h
  obtain ⟨us, vs, rfl, hus, hvs⟩ := h.append
  obtain ⟨t, ws, rfl, ht, hnil⟩ := List.map_eq_cons_iff.mp hus.map_lexeme
  obtain rfl := List.map_eq_nil_iff.mp hnil
  exact ⟨t, vs, rfl, ht, hvs⟩

end Renders

/-! ### Texts of tokens -/

theorem Atom.isSolid_lexeme (a : Atom) : a.lexeme.isSolid := by
  cases a with
  | number n => exact isSolid_numberLexeme _
  | _ => rfl

/-- The lexeme of a token inside of an initializer is all of its piece. -/
theorem Atom.kind_of_isInner (h : a.isInner) : a.kind = .token a.lexeme := by
  cases a <;> first | rfl | cases h

/-- The words of a layout are the texts of its tokens. -/
theorem words_of_apart {ls : List Spaced} {s : Spaced} (h : Apart (ls ++ [s])) :
    words ((ls.flatMap Spaced.pieces ++ [s.atom.piece]).flatMap Piece.text) =
      (ls ++ [s]).map (·.atom.text.toList) := by
  induction ls with
  | nil =>
    have hword : words (s.atom.text.toList ++ []) = s.atom.text.toList :: words [] :=
      words_append s.atom.not_isBlank s.atom.text_ne_nil fun c hc =>
        absurd hc (Option.not_mem_none c)
    rw [List.append_nil] at hword
    simpa [Atom.piece, words] using hword
  | cons u ls ih =>
    obtain ⟨hgap, hls⟩ := List.isChain_cons.mp h
    -- Something follows the first token, so that there is white space behind it.
    obtain ⟨v, hv⟩ : ∃ v, v ∈ (ls ++ [s]).head? := by
      cases ls <;> exact ⟨_, rfl⟩
    obtain ⟨c, cs, hcs⟩ := List.exists_cons_of_ne_nil (mt String.toList_eq_nil_iff.mp (hgap v hv))
    have hblank : ∀ d ∈ u.gap.toList, isBlank d := fun d hd => isBlank_of_isSpace (u.isSpace d hd)
    have hhead : ∀ d ∈ (u.gap.toList ++
        (ls.flatMap Spaced.pieces ++ [s.atom.piece]).flatMap Piece.text).head?, isBlank d := by
      rw [hcs]
      rintro d ⟨⟩
      exact hblank c (hcs ▸ List.mem_cons_self)
    rw [List.flatMap_cons, Spaced.pieces, List.append_assoc, List.cons_append, List.flatMap_cons,
      List.flatMap_append, flatMap_text_blanks, Atom.piece,
      words_append u.atom.not_isBlank u.atom.text_ne_nil hhead, words_append_of_blank hblank,
      ih hls]
    rfl

/-- **The text of tokens is that of a layout with single spaces.** -/
theorem Renders.sourceText_eq (h : Renders as (first :: more)) (has : ∀ a ∈ as, a.isInner) :
    sourceText first (more.getLastD first) = spaced as := by
  have hsolid : ∀ t ∈ first :: more, t.lexeme.isSolid := by
    intro t ht
    have hmem : t.lexeme ∈ as.map Atom.lexeme := h.map_lexeme ▸ List.mem_map_of_mem ht
    obtain ⟨a, -, hat⟩ := List.mem_map.mp hmem
    exact hat ▸ a.isSolid_lexeme
  obtain ⟨ls, rfl, hapart, offset, line, behind, hts⟩ := h
  rcases List.eq_nil_or_concat ls with rfl | ⟨init, s, rfl⟩
  · cases hts
  rw [List.concat_eq_append] at hapart has hts ⊢
  -- The white space behind the last token gives no tokens.
  have hpieces : (init ++ [s]).flatMap Spaced.pieces =
      (init.flatMap Spaced.pieces ++ [s.atom.piece]) ++ blanks s.gap := by
    simp [Spaced.pieces]
  rw [hpieces, located_append, located_blanks, List.append_nil] at hts
  obtain ⟨u, us, hu, hfirst⟩ : ∃ u us, u ∈ init ++ [s] ∧
      init.flatMap Spaced.pieces ++ [s.atom.piece] = u.atom.piece :: us := by
    cases init with
    | nil => exact ⟨s, [], List.mem_singleton_self s, rfl⟩
    | cons u us => exact ⟨u, _, List.mem_cons_self, rfl⟩
  have hkind : ∀ v ∈ init ++ [s], v.atom.piece.kind = .token v.atom.lexeme := fun v hv =>
    Atom.kind_of_isInner (has _ (List.mem_map_of_mem hv))
  have hfilter : (located offset line ((blanks s.gap).flatMap Piece.text ++ behind)
      (init.flatMap Spaced.pieces ++ [s.atom.piece])).filter (·.lexeme.isSolid) =
        first :: more := by
    rw [← hts]
    exact List.filter_eq_self.mpr hsolid
  have hends : ∀ v ∈ init ++ [s], v.atom.piece.isSolid := fun v hv =>
    Piece.isSolid_of_kind (hkind v hv) v.atom.isSolid_lexeme
  have htext := textBetween?_of_ends hfirst (hends u hu) rfl
    (hends s (List.mem_append_right _ (List.mem_singleton_self s))) hfilter
  rw [sourceText, htext, Option.getD_some, collapsed, words_of_apart hapart, spaced,
    ← String.toList_inj, String.toList_ofList, String.toList_intercalate, List.map_map,
    List.map_map]
  rfl

end Abstract

end Enumerant.Header
