import Enumerant.Proofs.Header.Lexer
import Enumerant.Proofs.Header.Steps

/-!
# Tokens and pieces

A token that is no stray byte is all of its piece, so that where such a token stands among the
tokens of a header, its piece stands among the pieces (`exists_piece_of_suffix`).
-/

namespace Enumerant.Header

open Text

variable {offset line : Nat} {ps qs : List Piece} {p : Piece} {t : Token} {ts : List Token}

/-! ### Lexemes of pieces -/

/-- The lexemes that a piece gives. -/
def Piece.lexemes (p : Piece) : List Lexeme :=
  match p.kind with
  | .token lexeme => [lexeme]
  | .strays => (p.text.flatMap String.utf8EncodeChar).map .stray
  | _ => []

theorem Piece.map_lexeme_tokens (p : Piece) (offset line : Nat) (onward : List UInt8) :
    (p.tokens offset line onward).map Token.lexeme = p.lexemes := by
  obtain ⟨kind, text⟩ := p
  cases kind with
  | strays => exact List.ext_getElem (by simp [tokens, lexemes]) (by simp [tokens, lexemes])
  | _ => rfl

/-! ### Pieces one after another -/

theorem located_append (offset line : Nat) (behind : List Char) (ps qs : List Piece) :
    located offset line behind (ps ++ qs) =
      located offset line (qs.flatMap Piece.text ++ behind) ps ++
        located (offset + byteLength (ps.flatMap Piece.text))
          (line + (ps.flatMap Piece.text).count '\n') behind qs := by
  induction ps generalizing offset line with
  | nil => simp [located, byteLength]
  | cons p ps ih =>
    simp [located, ih, byteLength_append, Nat.add_assoc]

theorem map_lexeme_located (offset line : Nat) (behind : List Char) (ps : List Piece) :
    (located offset line behind ps).map Token.lexeme = ps.flatMap Piece.lexemes := by
  induction ps generalizing offset line with
  | nil => rfl
  | cons p ps ih =>
    rw [located, List.map_append, Piece.map_lexeme_tokens, ih, List.flatMap_cons]

/-- Every token of a piece other than stray bytes is all of it. -/
theorem Piece.mem_tokens {offset line : Nat} {onward : List UInt8}
    (h : t ∈ p.tokens offset line onward) (ht : ∀ b, t.lexeme ≠ .stray b) :
    p.kind = .token t.lexeme ∧ p.tokens offset line onward = [t] := by
  obtain ⟨kind, text⟩ := p
  cases kind with
  | token lexeme =>
    obtain rfl := List.mem_singleton.mp h
    exact ⟨rfl, rfl⟩
  | strays =>
    obtain ⟨i, hi, rfl⟩ := List.mem_mapIdx.mp h
    exact absurd rfl (ht _)
  | _ => exact absurd h List.not_mem_nil

/-- The tokens of a piece lie within it, and the bytes from a token on are those from its start on.
-/
theorem Piece.extent_of_mem_tokens {onward : List UInt8} (h : t ∈ p.tokens offset line onward) :
    offset ≤ t.start ∧ t.stop ≤ offset + byteLength p.text ∧
      t.onward = onward.drop (t.start - offset) := by
  obtain ⟨kind, text⟩ := p
  cases kind with
  | token l =>
    obtain rfl := List.mem_singleton.mp h
    exact ⟨Nat.le_refl _, Nat.le_refl _, by rw [Nat.sub_self, List.drop_zero]⟩
  | strays =>
    obtain ⟨i, hi, rfl⟩ := List.mem_mapIdx.mp h
    rw [length_flatMap_utf8EncodeChar] at hi
    exact ⟨Nat.le_add_right _ _, Nat.add_le_add_left hi offset, by rw [Nat.add_sub_cancel_left]⟩
  | _ => exact absurd h List.not_mem_nil

theorem exists_piece_of_mem {behind : List Char} (h : t ∈ located offset line behind ps) :
    ∃ before p after, ps = before ++ p :: after ∧
      t ∈ p.tokens (offset + byteLength (before.flatMap Piece.text))
        (line + (before.flatMap Piece.text).count '\n')
        (((p :: after).flatMap Piece.text ++ behind).flatMap String.utf8EncodeChar) := by
  induction ps generalizing offset line with
  | nil => exact absurd h List.not_mem_nil
  | cons p ps ih =>
    rcases List.mem_append.mp h with h | h
    · exact ⟨[], p, ps, rfl, h⟩
    · obtain ⟨before, q, after, rfl, hq⟩ := ih h
      refine ⟨p :: before, q, after, rfl, ?_⟩
      simpa [byteLength_append, Nat.add_assoc] using hq

/-- A token that is no stray byte is all that its piece gives. -/
theorem exists_piece_of_suffix {behind : List Char} (h : t :: ts <:+ located offset line behind ps)
    (ht : ∀ b, t.lexeme ≠ .stray b) :
    ∃ before p after, ps = before ++ p :: after ∧ p.kind = .token t.lexeme ∧
      t :: ts = located (offset + byteLength (before.flatMap Piece.text))
        (line + (before.flatMap Piece.text).count '\n') behind (p :: after) := by
  induction ps generalizing offset line with
  | nil => exact absurd (List.suffix_nil.mp h) (List.cons_ne_nil _ _)
  | cons p ps ih =>
    obtain ⟨pre, hpre⟩ := h
    -- The token is one of the first piece or of a later one; only stray bytes share a piece.
    rcases List.append_eq_append_iff.mp hpre with ⟨more, htokens, hts⟩ | ⟨more, rfl, hts⟩
    · rcases more with - | ⟨u, more⟩
      · obtain ⟨before, q, after, rfl, hq, heq⟩ := ih ⟨[], hts⟩
        refine ⟨p :: before, q, after, rfl, hq, ?_⟩
        rw [heq]
        simp [byteLength_append, Nat.add_assoc]
      · rw [List.cons_append] at hts
        obtain ⟨rfl, hts⟩ := List.cons.inj hts
        have hmem : t ∈ p.tokens offset line
            (((p :: ps).flatMap Piece.text ++ behind).flatMap String.utf8EncodeChar) := by
          rw [htokens]
          simp
        obtain ⟨hkind, hone⟩ := Piece.mem_tokens hmem ht
        refine ⟨[], p, ps, rfl, hkind, ?_⟩
        obtain rfl : more = [] := by
          have hlength : [t].length = (pre ++ t :: more).length := by rw [← hone, htokens]
          simp only [List.length_append, List.length_cons, List.length_nil] at hlength
          exact List.eq_nil_of_length_eq_zero (by omega)
        rw [hts]
        exact congrArg (· ++ _) hone.symm
    · obtain ⟨before, q, after, rfl, hq, heq⟩ := ih ⟨more, hts.symm⟩
      refine ⟨p :: before, q, after, rfl, hq, ?_⟩
      rw [heq]
      simp [byteLength_append, Nat.add_assoc]

end Enumerant.Header
