import Enumerant.Proofs.Header.Grammar
import Enumerant.Proofs.Header.Groups
import Enumerant.Proofs.Header.Written

/-!
# What initializers are taken for

An initializer should be taken for a number if it is a constant expression with that value, for a
reference if it is an identifier, and for text without a value otherwise: `Justified`. Comments and
directives do not count, nor do quoted texts, though these are part of what is written.
`justified_iff` shows that nothing else goes wrong: what is kept of an initializer is
justified unless a quoted text was passed over.
-/

namespace Enumerant.Header

open Text

variable {text : String} {m : Member} {source : List Char} {first : Token} {more : List Token}
  {ps : List Piece} {p : Piece}

/-! ### What a text is -/

/-- A text is a constant expression over integer literals, with a value. -/
def IsConstant (s : List Char) (v : Int) : Prop :=
  ∃ e ls, Spelled s ls ∧ Derives 0 e ls ∧ e.value? = some v

/-- A text is an identifier. -/
def IsName (s : List Char) (name : String) : Prop :=
  Spelled s [.word name]

/-- A text is what an initializer says, and has no better reading where that says nothing. -/
def Justified (s : List Char) : Initializer → Prop
  | .implicit => False
  | .literal v _ => IsConstant s v
  | .reference name => IsName s name
  | .unevaluated _ => (∀ v, ¬ IsConstant s v) ∧ ∀ name, ¬ IsName s name

/-! ### What the tokens say -/

theorem constant?_eq_some_iff {ls : List Lexeme} {v : Int} :
    constant? ls = some v ↔ ∃ e, Derives 0 e ls ∧ e.value? = some v := by
  rw [constant?, Option.bind_eq_some_iff]
  simp only [parse?_eq_some_iff]

/-- The forms of an initializer, by its tokens. -/
theorem classify_cases (first : Token) (more : List Token) :
    (∃ name, (first :: more).map Token.lexeme = [.word name] ∧
      classify first more = .reference name) ∨
    (∃ v, constant? ((first :: more).map Token.lexeme) = some v ∧
      classify first more = .literal v (sourceText first (more.getLastD first))) ∨
    (constant? ((first :: more).map Token.lexeme) = none ∧
      (∀ name, (first :: more).map Token.lexeme ≠ [.word name]) ∧
      classify first more = .unevaluated (sourceText first (more.getLastD first))) := by
  unfold classify
  dsimp only
  split
  case h_1 name hname => exact .inl ⟨name, by simp [hname], rfl⟩
  case h_2 hno =>
    split
    case h_1 v hv => exact .inr (.inl ⟨v, hv, rfl⟩)
    case h_2 hv =>
      refine .inr (.inr ⟨hv, fun name hname => ?_, rfl⟩)
      simp only [List.map_cons, List.cons.injEq, List.map_eq_nil_iff] at hname
      exact hno name hname.1 hname.2

/-- A piece whose lexemes are no strays is plain unless it is a quoted text. -/
theorem Piece.isPlain_of_lexemes (h : p.text ≠ []) (hquoted : p.kind ≠ .quoted)
    (hstray : ∀ b, .stray b ∉ p.lexemes) : p.IsPlain := by
  refine ⟨hquoted, fun hk => ?_, fun b hk => hstray b (by simp [lexemes, hk])⟩
  obtain ⟨c, cs, hp⟩ := List.exists_cons_of_ne_nil h
  obtain ⟨b, bs, hb⟩ : ∃ b bs, String.utf8EncodeChar c = b :: bs := by
    refine List.exists_cons_of_ne_nil fun hnil => ?_
    have hsize := String.length_utf8EncodeChar c
    rw [hnil] at hsize
    exact absurd hsize (Nat.ne_of_lt c.utf8Size_pos)
  exact hstray b (by simp [lexemes, hk, hp, hb])

section Located

variable {offset line : Nat} {behind : List Char}
  (h : (located offset line behind (Piece.split false source)).filter (·.lexeme.isSolid) =
    first :: more)

include h

/-- The tokens of an initializer are the only ones that may spell it. -/
theorem spelled_cleared_iff {ls : List Lexeme} :
    Spelled (cleared source) ls ↔
      (∀ p ∈ Piece.split false source, p.IsPlain) ∧ ls = (first :: more).map Token.lexeme := by
  have hls : (first :: more).map Token.lexeme =
      ((Piece.split false source).flatMap Piece.lexemes).filter Lexeme.isSolid := by
    rw [← h, ← map_lexeme_located offset line behind, List.filter_map]
    rfl
  rw [hls]
  exact spelled_iff rfl

/-- Where no token is a stray, only quoted texts are not plain. -/
theorem forall_isPlain_iff (hstray : ∀ b, .stray b ∉ (first :: more).map Token.lexeme) :
    (∀ p ∈ Piece.split false source, p.IsPlain) ↔
      ∀ p ∈ Piece.split false source, p.kind ≠ .quoted := by
  refine ⟨fun hp p hmem => (hp p hmem).1, fun hp p hmem => ?_⟩
  refine Piece.isPlain_of_lexemes (Piece.text_ne_nil_of_mem_split hmem) (hp p hmem) fun b hb => ?_
  refine hstray b ?_
  rw [← h]
  have hmem : Lexeme.stray b ∈
      (located offset line behind (Piece.split false source)).map Token.lexeme := by
    rw [map_lexeme_located]
    exact List.mem_flatMap.mpr ⟨p, hmem, hb⟩
  obtain ⟨t, ht, htb⟩ := List.mem_map.mp hmem
  exact List.mem_map.mpr ⟨t, List.mem_filter.mpr ⟨ht, by rw [htb]; rfl⟩, htb⟩

end Located

/-- **Which initializers are taken for what they are.** -/
theorem justified_iff (h : Written text m source) :
    Justified (cleared source) m.value ↔
      (∀ p ∈ Piece.split false source, p.kind ≠ .quoted) ∨ ∃ t, m.value = .unevaluated t := by
  obtain ⟨offset, line, behind, first, more, hlocated, hvalue⟩ := h.exists_located
  have hspelled : ∀ ls, Spelled (cleared source) ls ↔
      (∀ p ∈ Piece.split false source, p.IsPlain) ∧ ls = (first :: more).map Token.lexeme :=
    fun ls => spelled_cleared_iff hlocated
  rw [hvalue]
  rcases classify_cases first more with ⟨name, hname, hclass⟩ | ⟨v, hv, hclass⟩ |
    ⟨hnone, hname, hclass⟩ <;> rw [hclass]
  · have hplain := forall_isPlain_iff hlocated (by simp [hname])
    simp [Justified, IsName, hspelled, hname, hplain]
  -- Without quoted texts the tokens spell the source, so that the tree that was read is its tree.
  · obtain ⟨e, he, hev⟩ := constant?_eq_some_iff.mp hv
    have hplain := forall_isPlain_iff hlocated fun b hb => by
      rcases he.exists_of_mem hb with ⟨w, hw⟩ | ⟨p, hp⟩ <;> simp at *
    simp only [Justified, IsConstant, hspelled, reduceCtorEq, exists_false, or_false]
    constructor
    · rintro ⟨e, ls, ⟨hall, -⟩, -⟩
      exact hplain.mp hall
    · intro hall
      exact ⟨e, _, ⟨hplain.mpr hall, rfl⟩, he, hev⟩
  · simp only [Justified, IsConstant, IsName, hspelled]
    refine iff_of_true ⟨?_, ?_⟩ (.inr ⟨_, rfl⟩)
    · rintro v ⟨e, ls, ⟨-, rfl⟩, he, hev⟩
      rw [constant?_eq_some_iff.mpr ⟨e, he, hev⟩] at hnone
      cases hnone
    · rintro name ⟨-, h⟩
      exact hname name h.symm

/-- **Initializers are taken for what is written**, unless a quoted text was passed over. Every
initializer is written somewhere, and what is kept of it is a constant expression, an identifier, or
neither, just as its text is without comments and directives. Where a quoted text is part of it,
only an initializer without a value is kept as what it is. -/
theorem initializers_justified_iff {s : Schema} (hparse : parse text = .ok s) :
    ∀ g ∈ s.groups, ∀ m ∈ g.members, m.value ≠ .implicit →
      (∃ source, Written text m source) ∧
        ∀ source, Written text m source → (Justified (cleared source) m.value ↔
          (∀ p ∈ Piece.split false source, p.kind ≠ .quoted) ∨ ∃ t, m.value = .unevaluated t) := by
  intro g hg m hm himplicit
  obtain ⟨last, hdecl⟩ := declaresMember_of_parse hparse hg hm
  exact ⟨exists_written hdecl himplicit, fun source h => justified_iff h⟩

/-- A sum with a comment, and one with a quoted character. -/
def quotedCharacter : String :=
  "enum E \x7b A = 1 /* one */ + 2, B = \x27a\x27 + 1 \x7d;"

/-- What is kept of the sum with a comment. -/
def commentedSum : Member :=
  ⟨"A", .literal 3 "1 /* one */ + 2", none⟩

/-- What is kept of the sum with a quoted character. -/
def quotedSum : Member :=
  ⟨"B", .literal 1 "+ 1", none⟩

theorem parse_quotedCharacter :
    parse quotedCharacter = .ok { groups := [⟨"E", .plain, 32, [commentedSum, quotedSum]⟩] } := by
  decide +kernel

theorem written_commentedSum :
    Written quotedCharacter commentedSum " 1 /* one */ + 2".toList :=
  let token := tokenAt quotedCharacter
  let tokensFrom := tokensFrom quotedCharacter
  @Written.intro _ 1 _ _ (token 3) (token 4) (token 8) (tokensFrom 4) (tokensFrom 9)
    (tokensFrom 5) ((tokensFrom 5).take 3) (tokensFrom 8) (tokensFrom 9)
    (by decide +kernel) (by decide +kernel) (by decide +kernel) (by decide +kernel)
    (by decide +kernel) (by decide +kernel) (by decide +kernel) (by decide +kernel)

/-- The sum with a comment is a constant expression of value three. -/
theorem justified_commentedSum :
    parse quotedCharacter = .ok { groups := [⟨"E", .plain, 32, [commentedSum, quotedSum]⟩] } ∧
      IsConstant (cleared " 1 /* one */ + 2".toList) 3 := by
  refine ⟨parse_quotedCharacter, ?_⟩
  have h := (initializers_justified_iff parse_quotedCharacter _ (List.mem_singleton_self _)
    commentedSum List.mem_cons_self nofun).2 _ written_commentedSum
  exact h.mpr (.inl (by decide +kernel))

theorem written_quotedSum : Written quotedCharacter quotedSum " \x27a\x27 + 1 ".toList :=
  let token := tokenAt quotedCharacter
  let tokensFrom := tokensFrom quotedCharacter
  @Written.intro _ 1 _ _ (token 9) (token 10) (token 13) (tokensFrom 10) (tokensFrom 13)
    (tokensFrom 11) ((tokensFrom 11).take 2) (tokensFrom 13) (tokensFrom 14)
    (by decide +kernel) (by decide +kernel) (by decide +kernel) (by decide +kernel)
    (by decide +kernel) (by decide +kernel) (by decide +kernel) (by decide +kernel)

/-- The sum with a quoted character is kept as a number, though it is no constant expression over
integer literals. -/
theorem not_justified_quotedSum :
    ∃ s, parse quotedCharacter = .ok s ∧ ∃ g ∈ s.groups, ∃ m ∈ g.members, ∃ source,
      Written quotedCharacter m source ∧ ¬ Justified (cleared source) m.value := by
  refine ⟨_, parse_quotedCharacter, _, List.mem_singleton_self _, quotedSum, by simp, _,
    written_quotedSum, ?_⟩
  rw [justified_iff written_quotedSum]
  rintro (h | ⟨t, ht⟩)
  · exact absurd h (by decide +kernel)
  · cases ht

end Enumerant.Header
