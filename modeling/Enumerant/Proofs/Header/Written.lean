import Enumerant.Proofs.Header.Spelling

/-!
# Where initializers are written

The text of an initializer stands between an equals sign and the comma or the closing brace that
ends it (`Written`). Every initializer of a header is written somewhere (`exists_written`), and what
its member keeps is read from the pieces of that text alone (`Written.exists_located`).
-/

namespace Enumerant.Header

open Text

variable {text : String} {last : Nat} {m : Member} {source : List Char} {ts : List Token}

/-- A member of a header with an initializer, and the text of the initializer. -/
inductive Written (text : String) : Member → List Char → Prop
  | intro {last : Nat} {m : Member} {source : List Char} {name equals stop : Token}
      {ts rest after expr behind tail : List Token} (hname : name :: ts <:+ tokens text.toList)
      (hword : name.lexeme = .word m.name)
      (hmember : member last m.name name.line ts = .ok (m, rest))
      (hequals : next? ts = some (equals, after)) (hassign : equals.lexeme = .mark .assign)
      (hexpr : initializerTokens last 0 after = .ok (expr, behind))
      (hstop : next? behind = some (stop, tail))
      (hsource : equals.onward = ('=' :: source).flatMap String.utf8EncodeChar ++ stop.onward) :
      Written text m source

/-! ### Tokens by their places -/

/-- The tokens of a header from a place on. -/
def tokensFrom (text : String) (k : Nat) : List Token :=
  (tokens text.toList).drop k

/-- The token at a place in a header. -/
def tokenAt (text : String) (k : Nat) : Token :=
  (tokensFrom text k).headD ⟨.remark "", 0, 0, 0, []⟩

/-! ### From tokens to pieces -/

/-- The piece of a punctuation is its characters. -/
theorem Piece.Begins.text_of_mark {fresh : Bool} {p : Piece} {q : Punctuation} {rest : List Char}
    (h : p.Begins fresh rest) (hq : p.kind = .token (.mark q)) : p.text = q.text := by
  obtain ⟨kind, text⟩ := p
  dsimp only at hq
  subst hq
  generalize hp : (⟨.token (.mark q), text⟩ : Piece) = p at h
  cases h.form with
  | mark => cases hp; rfl
  | number =>
    have hkind := Piece.Kind.token.inj (congrArg Piece.kind hp)
    exact absurd hkind.symm (numberLexeme_ne_mark _ _)
  | _ => simp at hp

/-- The pieces behind a punctuation give the tokens behind it. -/
theorem exists_pieces_of_mark {t : Token} {q : Punctuation} (h : t :: ts <:+ tokens text.toList)
    (hq : t.lexeme = .mark q) :
    ∃ front line ps, text.toList = front ++ ps.flatMap Piece.text ∧
      ts = located (byteLength front) line [] ps ∧
      t.onward = (q.text ++ ps.flatMap Piece.text).flatMap String.utf8EncodeChar ∧
      Piece.split false (ps.flatMap Piece.text) = ps := by
  rw [tokens_eq_located] at h
  obtain ⟨before, p, ps, hpieces, hkind, hts⟩ := exists_piece_of_suffix h (by simp [hq])
  have hsplit : Piece.split true (before.flatMap Piece.text ++ (p :: ps).flatMap Piece.text) =
      before ++ p :: ps := by
    rw [← List.flatMap_append, ← hpieces, Piece.flatMap_text_split]
  obtain ⟨-, hsplit⟩ := Piece.split_of_append hsplit rfl
  obtain ⟨-, hp, hps⟩ := Piece.begins_of_split hsplit
  rw [hq] at hkind
  have htext := hp.text_of_mark hkind
  simp only [located, Piece.tokens, hkind, List.singleton_append, List.cons.injEq] at hts
  obtain ⟨rfl, hts⟩ := hts
  rw [Nat.zero_add, ← byteLength_append] at hts
  refine ⟨_, _, ps, ?_, hts, by simp [htext], ?_⟩
  · rw [← Piece.flatMap_text_split true text.toList, hpieces]
    simp
  have hfresh : ∀ fresh, p.leavesFresh fresh = false := by
    intro fresh
    simp only [Piece.leavesFresh, hkind, htext]
    cases q <;> simp [Punctuation.text]
  rwa [hfresh] at hps

/-! ### Initializers -/

/-- The pieces between an equals sign and the end of the initializer, with the tokens between
them. -/
theorem exists_pieces_of_initializer {equals : Token} {after expr behind : List Token}
    (h : equals :: after <:+ tokens text.toList) (hassign : equals.lexeme = .mark .assign)
    (hexpr : initializerTokens last 0 after = .ok (expr, behind)) :
    ∃ stop tail front back line ps, next? behind = some (stop, tail) ∧
      text.toList = front ++ (ps.flatMap Piece.text ++ back) ∧
      equals.onward =
        ('=' :: ps.flatMap Piece.text).flatMap String.utf8EncodeChar ++ stop.onward ∧
      Piece.split false (ps.flatMap Piece.text) = ps ∧
      (located (byteLength front) line back ps).filter (·.lexeme.isSolid) = expr := by
  obtain ⟨front, line, ps, htext, rfl, honward, hps⟩ := exists_pieces_of_mark h hassign
  obtain ⟨ts, stop, tail, hts, hfilter, hstop, hend⟩ := exists_of_initializerTokens hexpr
  obtain ⟨remarks, rfl, hremarks, -⟩ := exists_of_next? hstop
  -- The token at the end cuts the pieces in two.
  have hsuffix : stop :: tail <:+ located (byteLength front) line [] ps := by
    rw [hts, ← List.append_assoc]
    exact List.suffix_append _ _
  obtain ⟨qs, p, rs, rfl, hkind, htail⟩ :=
    exists_piece_of_suffix hsuffix (by rcases hend with hend | hend <;> simp [hend])
  have hstopOnward :
      stop.onward = ((p :: rs).flatMap Piece.text).flatMap String.utf8EncodeChar := by
    simp only [located, Piece.tokens, hkind, List.singleton_append, List.cons.injEq] at htail
    rw [htail.1, List.append_nil]
  rw [located_append, ← htail, List.append_nil, ← List.append_assoc] at hts
  rw [List.flatMap_append] at hps honward htext
  obtain ⟨hqs, -⟩ := Piece.split_of_append hps rfl
  refine ⟨stop, tail, front, _, line, qs, hstop, htext, ?_, hqs, ?_⟩
  · rw [honward, hstopOnward]
    simp [Punctuation.text]
  · rw [List.append_cancel_right hts, List.filter_append, hremarks, hfilter, List.append_nil]

/-- What a member keeps is what the pieces between its equals sign and the end of its initializer
say. -/
theorem Written.exists_located (h : Written text m source) :
    ∃ offset line behind first more,
      (located offset line behind (Piece.split false source)).filter (·.lexeme.isSolid) =
        first :: more ∧ m.value = classify first more := by
  obtain ⟨hname, hword, hmember, hequals, hassign, hexpr, hstop, hsource⟩ := h
  rename_i last name equals stop ts rest after expr behind tail
  have hsuffix : equals :: after <:+ tokens text.toList :=
    (next?_suffix hequals).trans ((List.suffix_cons name ts).trans hname)
  obtain ⟨stop', tail', front, back, line, ps, hstop', -, honward, hps, hfilter⟩ :=
    exists_pieces_of_initializer hsuffix hassign hexpr
  cases hstop.symm.trans hstop'
  have heq : source = ps.flatMap Piece.text := by
    rw [hsource] at honward
    exact (List.cons.inj (flatMap_utf8EncodeChar_inj.mp (List.append_cancel_right honward))).2
  obtain ⟨-, after', hvalue⟩ := memberValue_of_member hmember
  rcases memberValue_eq_ok hvalue with ⟨equals', after, hequals', -, hinit⟩ | ⟨-, -, hno⟩
  · cases hequals.symm.trans hequals'
    obtain ⟨first, more, hexpr', hclass⟩ := exists_of_initializer hinit
    cases hexpr.symm.trans hexpr'
    exact ⟨_, line, back, first, more, by rw [heq, hps, hfilter], hclass⟩
  · simp [nextIs, hequals, hassign] at hno

/-- Every initializer of a header is written in it. -/
theorem exists_written (h : DeclaresMember last (tokens text.toList) m)
    (hm : m.value ≠ .implicit) : ∃ source, Written text m source := by
  obtain ⟨name, ts, word, rest, hname, hword, hmember⟩ := h
  obtain ⟨rfl, after', hvalue⟩ := memberValue_of_member hmember
  rcases memberValue_eq_ok hvalue with ⟨equals, after, hequals, hassign, hinit⟩ | ⟨himplicit, -⟩
  · obtain ⟨first, more, hexpr, -⟩ := exists_of_initializer hinit
    have hsuffix : equals :: after <:+ tokens text.toList :=
      (next?_suffix hequals).trans ((List.suffix_cons name ts).trans hname)
    obtain ⟨stop, tail, front, back, line, ps, hstop, -, honward, -⟩ :=
      exists_pieces_of_initializer hsuffix hassign hexpr
    exact ⟨_, .intro hname hword hmember hequals hassign hexpr hstop honward⟩
  · exact absurd himplicit hm

end Enumerant.Header
