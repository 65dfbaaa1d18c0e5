import Enumerant.Proofs.Header.Form
import Enumerant.Proofs.Header.Position
import Enumerant.Proofs.Text.Decoding

/-!
# Where tokens stand

A token keeps its line and the range of its bytes. Both are exact, whatever stands in front of the
token: `Token.StandsIn` says that the range is not empty and lies within the text, that the line
counts the line breaks in front of it, and that the bytes in the range are those that the lexeme is
written with. `standsIn_and_pairwise` shows it for all tokens of a text, which moreover follow one
another without overlap.
-/

namespace Enumerant.Header

open Text

variable {fresh : Bool} {offset line : Nat} {behind rest : List Char} {onward : List UInt8}
  {ps : List Piece} {p : Piece} {t : Token} {l : Lexeme} {text : String}

/-! ### Bytes of lexemes -/

/-- A lexeme is written with some bytes. A word and a punctuation are their own text, and an integer
is any literal of its value. A comment stands behind two slashes, maybe with blanks around it. A
byte that means nothing is itself, unless it is the zero that stands for a number without value. -/
def Lexeme.IsWritten : Lexeme → List UInt8 → Prop
  | .word name, bs => bs = bytes name
  | .integer v, bs => ∃ s : String, bs = bytes s ∧ Literal.parse? s.toList = some v
  | .remark comment, bs => ∃ s : String, bs = bytes ("//" ++ s) ∧ trimmed s = comment
  | .mark m, bs => bs = bytes (String.ofList m.text)
  | .stray b, bs => bs = [b] ∨ b = 48 ∧ ∃ s : String, bs = bytes s ∧ Literal.parse? s.toList = none

theorem bytes_ofList (cs : List Char) :
    bytes (String.ofList cs) = cs.flatMap String.utf8EncodeChar := by
  rw [bytes_eq_flatMap, String.toList_ofList]

/-- A piece that is a token consists of the bytes of its lexeme. -/
theorem Form.isWritten (h : Form fresh rest p) (hp : p.kind = .token l) :
    l.IsWritten (p.text.flatMap String.utf8EncodeChar) := by
  rw [← bytes_ofList]
  cases h with
  | @remark cs =>
    obtain rfl := Piece.Kind.token.inj hp
    refine ⟨String.ofList cs, ?_, by rw [trimmed, String.toList_ofList]⟩
    simp [bytes_eq_flatMap]
  | @number c cs =>
    obtain rfl := Piece.Kind.token.inj hp
    rw [numberLexeme]
    rcases hv : Literal.parse? (c :: cs) with - | v
    · exact .inr ⟨rfl, _, rfl, by rw [String.toList_ofList, hv]⟩
    · exact ⟨_, rfl, by rw [String.toList_ofList, hv]⟩
  | word =>
    obtain rfl := Piece.Kind.token.inj hp
    rfl
  | mark =>
    obtain rfl := Piece.Kind.token.inj hp
    rfl
  | _ => cases hp

/-! ### Tokens within their piece -/

/-- A token starts and stops within its piece, at bytes that are counted from the start of the
piece, and no line break stands between that start and the token. -/
theorem Form.exists_range (hp : Form fresh rest p) (h : t ∈ p.tokens offset line onward) :
    ∃ i j, t.start = offset + i ∧ t.stop = offset + j ∧ t.line = line ∧ i < j ∧
      j ≤ (p.text.flatMap String.utf8EncodeChar).length ∧
      10 ∉ (p.text.flatMap String.utf8EncodeChar).take i ∧
      t.lexeme.IsWritten ((p.text.flatMap String.utf8EncodeChar).extract i j) := by
  rcases hkind : p.kind with _ | _ | _ | _ | l | _
  case token =>
    have hwritten := hp.isWritten hkind
    simp only [Piece.tokens, hkind, List.mem_singleton] at h
    subst h
    refine ⟨0, byteLength p.text, rfl, rfl, rfl, ?_, ?_, List.not_mem_nil, ?_⟩
    · obtain ⟨c, cs, htext, -⟩ := Piece.Begins.of_form hp
      rw [htext, byteLength]
      have hsize := c.utf8Size_pos
      omega
    · rw [length_flatMap_utf8EncodeChar]
    · rwa [← length_flatMap_utf8EncodeChar, List.extract_eq_take_drop, List.drop_zero,
        Nat.sub_zero, List.take_length]
  case strays =>
    simp only [Piece.tokens, hkind] at h
    obtain ⟨i, hi, rfl⟩ := List.mem_mapIdx.mp h
    refine ⟨i, i + 1, rfl, rfl, rfl, Nat.lt_succ_self i, hi, ?_, .inl ?_⟩
    · -- A stray character is no line break, so none of its bytes is one.
      intro hmem
      cases hp with
      | @strays c hc =>
        have hne : c ≠ '\n' := by
          rintro rfl
          exact hc.not_space (by decide)
        have hbyte := List.mem_of_mem_take hmem
        rw [List.flatMap_singleton] at hbyte
        simpa using newline_not_mem_utf8EncodeChar hne 10 hbyte
      | number => exact absurd hkind (by simp)
      | _ => cases hkind
    · rw [List.extract_eq_take_drop, Nat.add_sub_cancel_left, List.drop_eq_getElem_cons hi]
      rfl
  all_goals simp [Piece.tokens, hkind] at h

/-! ### Tokens within the text -/

/-- A token stands in a text where it says. Lines are counted from one. -/
structure Token.StandsIn (t : Token) (text : String) : Prop where
  nonempty : t.start < t.stop
  within : t.stop ≤ (bytes text).length
  line : t.line = 1 + ((bytes text).take t.start).count 10
  written : t.lexeme.IsWritten ((bytes text).extract t.start t.stop)

theorem standsIn_of_mem (h : t ∈ tokens text.toList) : t.StandsIn text := by
  rw [tokens_eq_located] at h
  obtain ⟨before, p, after, hsplit, ht⟩ := exists_piece_of_mem h
  obtain ⟨i, j, hstart, hstop, hline, hlt, hle, hbreak, hwritten⟩ :=
    (Piece.form_of_split hsplit).exists_range ht
  -- The bytes of the text are those of the pieces before, of the piece and of those after it.
  have hbytes : bytes text = (before.flatMap Piece.text).flatMap String.utf8EncodeChar ++
      (p.text.flatMap String.utf8EncodeChar ++
        (after.flatMap Piece.text).flatMap String.utf8EncodeChar) := by
    rw [bytes_eq_flatMap, ← Piece.flatMap_text_split true text.toList, hsplit]
    simp [List.flatMap_append]
  rw [Nat.zero_add, ← length_flatMap_utf8EncodeChar] at hstart hstop
  refine ⟨by omega, ?_, ?_, ?_⟩
  · rw [hbytes, hstop, List.length_append, List.length_append]
    omega
  · have hnone : ((p.text.flatMap String.utf8EncodeChar).take i).count 10 = 0 :=
      List.count_eq_zero.mpr hbreak
    rw [hbytes, hstart, hline, List.take_length_add_append,
      List.take_append_of_le_length (by omega), List.count_append, hnone,
      count_flatMap_utf8EncodeChar, Nat.add_zero]
  · rwa [hbytes, hstart, hstop, List.extract_eq_take_drop, List.drop_length_add_append,
      Nat.add_sub_add_left, List.drop_append_of_le_length (by omega),
      List.take_append_of_le_length (by rw [List.length_drop]; omega), ← List.extract_eq_take_drop]

/-- The tokens of pieces follow one another. -/
theorem pairwise_located (offset line : Nat) (behind : List Char) (ps : List Piece) :
    (located offset line behind ps).Pairwise fun t u => t.stop ≤ u.start := by
  induction ps generalizing offset line with
  | nil => exact List.Pairwise.nil
  | cons p ps ih =>
    refine List.pairwise_append.mpr ⟨?_, ih _ _, ?_⟩
    · obtain ⟨kind, text⟩ := p
      cases kind with
      | token l => exact List.pairwise_singleton _ _
      | strays =>
        refine List.pairwise_iff_getElem.mpr fun i j hi hj hij => ?_
        simp only [Piece.tokens, List.getElem_mapIdx]
        omega
      | _ => exact List.Pairwise.nil
    · intro t ht u hu
      obtain ⟨-, hstop, -⟩ := Piece.extent_of_mem_tokens ht
      obtain ⟨before, q, after, -, hq⟩ := exists_piece_of_mem hu
      obtain ⟨hstart, -, -⟩ := Piece.extent_of_mem_tokens hq
      omega

/-- **The positions of tokens are exact.** -/
theorem standsIn_and_pairwise (text : String) :
    (∀ t ∈ tokens text.toList, t.StandsIn text) ∧
      (tokens text.toList).Pairwise fun t u => t.stop ≤ u.start := by
  refine ⟨fun t ht => standsIn_of_mem ht, ?_⟩
  rw [tokens_eq_located]
  exact pairwise_located 0 1 [] _

end Enumerant.Header
