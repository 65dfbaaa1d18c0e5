import Enumerant.Proofs.Header.LiteralText
import Enumerant.Proofs.Header.Motion
import Enumerant.Proofs.Schema

/-!
# Headers behind one another

No reader gets beyond a semicolon: it stops in front of it, or there is a fault. A header that is
read without fault and ends with a semicolon is therefore done with when another one follows it
(`readTokens_append`), and the two together are read as the one behind the other (`parse_append`).
-/

namespace Enumerant.Header

open Text

variable {last depth line width : Nat} {name : String} {ts us rest : List Token} {t : Token}
  {a b front : List Char} {s : Schema} {α : Type}

/-! ### Tokens that end with a semicolon -/

/-- The last of some tokens is a semicolon. -/
def Ends (ts : List Token) : Prop :=
  ∃ front t, ts = front ++ [t] ∧ t.lexeme = .mark .semicolon

namespace Ends

/-- There is a semicolon at least. -/
theorem ne_nil (h : Ends ts) : ts ≠ [] := by
  obtain ⟨front, t, rfl, -⟩ := h
  exact List.append_ne_nil_of_right_ne_nil _ (List.cons_ne_nil _ _)

/-- Every end of such tokens but the empty one ends in the same way. -/
theorem of_suffix (h : Ends ts) (hs : us <:+ ts) (hne : us ≠ []) : Ends us := by
  obtain ⟨front, t, rfl, ht⟩ := h
  obtain ⟨before, hbefore⟩ := hs
  rcases List.eq_nil_or_concat us with rfl | ⟨init, u, rfl⟩
  · exact absurd rfl hne
  rw [List.concat_eq_append, ← List.append_assoc] at hbefore
  obtain ⟨-, hu⟩ := List.append_inj' hbefore rfl
  obtain rfl := List.singleton_inj.mp hu
  exact ⟨init, u, List.concat_eq_append, ht⟩

/-- Only the semicolon itself may be the last token. -/
theorem tail (h : Ends (t :: ts)) (ht : t.lexeme ≠ .mark .semicolon) : Ends ts := by
  refine h.of_suffix (List.suffix_cons t ts) ?_
  rintro rfl
  obtain ⟨front, u, hu, hsemicolon⟩ := h
  rcases front with - | ⟨v, front⟩
  · cases hu
    exact ht hsemicolon
  · simp at hu

/-- In front of the semicolon there is always something to read. -/
theorem exists_next? (h : Ends ts) : ∃ t rest, next? ts = some (t, rest) := by
  obtain ⟨front, s, rfl, hs⟩ := h
  induction front with
  | nil => exact ⟨s, [], next?_cons (by simp [hs]) []⟩
  | cons u front ih =>
    by_cases hu : ∃ text, u.lexeme = .remark text
    · obtain ⟨text, hu⟩ := hu
      rwa [List.cons_append, next?_cons_remark hu]
    · exact ⟨u, _, next?_cons (by simpa using hu) _⟩

/-- Behind anything but a semicolon there is still one to come. -/
theorem of_next? (h : Ends ts) (hnext : next? ts = some (t, rest))
    (ht : t.lexeme ≠ .mark .semicolon) : Ends rest :=
  (h.of_suffix (next?_suffix hnext) (List.cons_ne_nil _ _)).tail ht

end Ends

/-! ### Readers in front of further tokens -/

/-- What comes next does not depend on what follows. -/
theorem next?_append (h : next? ts = some (t, rest)) (us : List Token) :
    next? (ts ++ us) = some (t, rest ++ us) := by
  induction ts with
  | nil => cases h
  | cons u ts ih =>
    by_cases hu : ∃ text, u.lexeme = .remark text
    · obtain ⟨text, hu⟩ := hu
      rw [next?_cons_remark hu] at h
      rw [List.cons_append, next?_cons_remark hu, ih h]
    · have hsolid : ∀ text, u.lexeme ≠ .remark text := by simpa using hu
      rw [next?_cons hsolid] at h
      cases h
      exact next?_cons hsolid _

/-- Where a reader does without a fault on tokens that end with a semicolon, it does not get to the
end of them, and it does the same in front of further tokens. -/
def Continues (f : Nat → List Token → Except Fault (α × List Token)) : Prop :=
  ∀ ⦃last ts x rest⦄, Ends ts → f last ts = .ok (x, rest) →
    Ends rest ∧ ∀ last' us, f last' (ts ++ us) = .ok (x, rest ++ us)

/-- The same for a reader without faults. -/
def Advances (g : List Token → α × List Token) : Prop :=
  ∀ ⦃ts⦄, Ends ts → Ends (g ts).2 ∧ ∀ us, g (ts ++ us) = ((g ts).1, (g ts).2 ++ us)

/-- An initializer ends within its part, or is a fault there. -/
theorem continues_initializerTokens (depth : Nat) :
    Continues fun last => initializerTokens last depth := by
  intro last ts expr rest hends h
  dsimp only at h ⊢
  fun_induction initializerTokens last depth ts generalizing expr rest with
  | case1 => cases h
  | case2 depth ts t behind hnext hstop =>
    cases h
    refine ⟨hends, fun last' us => ?_⟩
    rw [initializerTokens_eq, next?_append hnext]
    exact if_pos hstop
  | case3 => cases h
  | case4 depth ts t behind hnext hstop hbad expr after hmore ih =>
    cases h
    obtain ⟨hafter, hagain⟩ := ih (hends.of_next? hnext fun ht => hbad (.inl ht)) hmore
    refine ⟨hafter, fun last' us => ?_⟩
    rw [initializerTokens_eq, next?_append hnext]
    dsimp only
    rw [if_neg hstop, if_neg hbad, hagain]
  | case5 => cases h

/-- The value of an initializer depends on its part alone. -/
theorem continues_initializer : Continues initializer := by
  intro last ts value rest hends h
  obtain ⟨first, more, hexpr, rfl⟩ := exists_of_initializer h
  obtain ⟨hrest, hagain⟩ := continues_initializerTokens 0 hends hexpr
  refine ⟨hrest, fun last' us => ?_⟩
  have hexpr' : initializerTokens last' 0 (ts ++ us) = _ := hagain last' us
  rw [initializer, hexpr']

theorem advances_trailingRemark (line : Nat) : Advances (trailingRemark line) := by
  intro ts hends
  rcases ts with - | ⟨t, ts⟩
  · exact absurd rfl hends.ne_nil
  simp only [List.cons_append, trailingRemark]
  split
  case h_1 text ht =>
    split
    case isTrue => exact ⟨hends.tail (by simp [ht]), fun us => rfl⟩
    case isFalse => exact ⟨hends, fun us => rfl⟩
  case h_2 => exact ⟨hends, fun us => rfl⟩

/-- The value of a member depends on its part alone. -/
theorem continues_memberValue : Continues memberValue := by
  intro last ts value rest hends h
  obtain ⟨t, behind, hnext⟩ := hends.exists_next?
  rw [memberValue_of_next? hnext] at h
  split at h
  case isTrue hassign =>
    obtain ⟨hrest, hagain⟩ := continues_initializer (hends.of_next? hnext (by simp [hassign])) h
    refine ⟨hrest, fun last' us => ?_⟩
    rw [memberValue_of_next? (next?_append hnext us), if_pos hassign, hagain]
  case isFalse hassign =>
    cases h
    refine ⟨hends, fun last' us => ?_⟩
    rw [memberValue_of_next? (next?_append hnext us), if_neg hassign]

/-- What follows a member is found within its part. -/
theorem afterSeparator_append (hends : Ends ts) (h : afterSeparator last name ts = .ok rest) :
    Ends rest ∧ ∀ last' us, afterSeparator last' name (ts ++ us) = .ok (rest ++ us) := by
  obtain ⟨t, behind, hnext⟩ := hends.exists_next?
  rw [afterSeparator_of_next? hnext] at h
  split_ifs at h with hcomma hclose
  · cases h
    refine ⟨hends.of_next? hnext (by simp [hcomma]), fun last' us => ?_⟩
    rw [afterSeparator_of_next? (next?_append hnext us), if_pos hcomma]
  · cases h
    refine ⟨hends, fun last' us => ?_⟩
    rw [afterSeparator_of_next? (next?_append hnext us), if_neg hcomma, if_pos hclose]

/-- A member depends on its part alone. -/
theorem continues_member (name : String) (line : Nat) :
    Continues fun last => member last name line := by
  intro last ts m rest hends h
  dsimp only [member] at h ⊢
  rcases hvalue : memberValue last ts with fault | ⟨value, after⟩
  · rw [hvalue] at h
    cases h
  obtain ⟨hafter, hvalue'⟩ := continues_memberValue hends hvalue
  obtain ⟨hbefore, hbefore'⟩ := advances_trailingRemark line hafter
  rcases hsep : afterSeparator last name (trailingRemark line after).2 with fault | sep
  · simp [hvalue, hsep] at h
  obtain ⟨hends', hsep'⟩ := afterSeparator_append hbefore hsep
  obtain ⟨hlast, hlast'⟩ := advances_trailingRemark line hends'
  simp only [hvalue, hsep] at h
  simp only [hvalue', hbefore', hsep', hlast']
  split at h <;> cases h
  · exact ⟨hends', fun _ _ => by simp only [*]⟩
  · exact ⟨hlast, fun _ _ => by simp only [*]⟩

/-- The members of a body depend on its part alone. -/
theorem continues_members : Continues members := by
  intro last ts ms rest hends h
  fun_induction members last ts generalizing ms rest with
  | case1 => cases h
  | case2 ts t behind hnext hclose =>
    cases h
    refine ⟨hends.of_next? hnext (by simp [hclose]), fun last' us => ?_⟩
    rw [members_eq, next?_append hnext]
    simp only [hclose]
  | case3 ts t behind hnext hcomma ih =>
    obtain ⟨hrest, hagain⟩ := ih (hends.of_next? hnext (by simp [hcomma])) h
    refine ⟨hrest, fun last' us => ?_⟩
    rw [members_eq, next?_append hnext]
    simp only [hcomma, hagain]
  | case4 => cases h
  | case5 ts t behind hnext name hname m after hm ms rest hms ih =>
    cases h
    obtain ⟨hafter, hm'⟩ := continues_member name t.line
      (hends.of_next? hnext (by simp [hname])) hm
    obtain ⟨hrest, hms'⟩ := ih hafter hms
    dsimp only at hm'
    refine ⟨hrest, fun last' us => ?_⟩
    rw [members_eq, next?_append hnext]
    simp only [hname, hm', hms']
  | case6 => cases h
  | case7 => cases h

/-- Whether a word comes next is seen in front of further tokens, too. -/
theorem word?_append (hends : Ends ts) (us : List Token) :
    word? (ts ++ us) = (word? ts).map (Prod.map id (· ++ us)) := by
  obtain ⟨t, rest, hnext⟩ := hends.exists_next?
  by_cases ht : ∃ name, t.lexeme = .word name
  · obtain ⟨name, ht⟩ := ht
    rw [word?_of_next? hnext ht, word?_of_next? (next?_append hnext us) ht]
    rfl
  · have hne : ∀ name, t.lexeme ≠ .word name := by simpa using ht
    rw [word?_of_next?_of_ne hnext hne, word?_of_next?_of_ne (next?_append hnext us) hne]
    rfl

theorem Ends.of_word? (h : Ends ts) (hword : word? ts = some (name, rest)) : Ends rest := by
  obtain ⟨t, behind, hnext⟩ := h.exists_next?
  by_cases ht : ∃ name, t.lexeme = .word name
  · obtain ⟨name, ht⟩ := ht
    rw [word?_of_next? hnext ht] at hword
    cases hword
    exact h.of_next? hnext (by simp [ht])
  · rw [word?_of_next?_of_ne hnext (by simpa using ht)] at hword
    cases hword

theorem advances_optionalWord : Advances optionalWord := by
  intro ts hends
  rcases hword : word? ts with - | ⟨name, rest⟩
  · simpa [optionalWord, word?_append hends, hword] using hends
  · simpa [optionalWord, word?_append hends, hword] using hends.of_word? hword

theorem advances_afterScope (hends : Ends ts) :
    Ends (afterScope ts) ∧ ∀ us, afterScope (ts ++ us) = afterScope ts ++ us := by
  rcases hword : word? ts with - | ⟨name, rest⟩
  · simpa [afterScope, word?_append hends, hword] using hends
  · by_cases hscope : name = "class" ∨ name = "struct"
    · simpa [afterScope, word?_append hends, hword, hscope] using hends.of_word? hword
    · simpa [afterScope, word?_append hends, hword, hscope] using hends

/-- A base type ends within its part. -/
theorem advances_baseWidth (width : Nat) : Advances (baseWidth width) := by
  intro ts hends
  fun_induction baseWidth width ts with
  | case1 width ts name line start stop onward rest hnext ih =>
    obtain ⟨hrest, hagain⟩ := ih (hends.of_next? hnext (by simp))
    refine ⟨hrest, fun us => ?_⟩
    rw [baseWidth_eq, next?_append hnext]
    exact hagain us
  | case2 width ts line start stop onward rest hnext ih =>
    obtain ⟨hrest, hagain⟩ := ih (hends.of_next? hnext (by simp))
    refine ⟨hrest, fun us => ?_⟩
    rw [baseWidth_eq, next?_append hnext]
    exact hagain us
  | case3 width ts hword hcolon =>
    refine ⟨hends, fun us => ?_⟩
    obtain ⟨t, rest, hnext⟩ := hends.exists_next?
    rw [baseWidth_eq, next?_append hnext]
    split
    case h_1 heq =>
      cases heq
      exact absurd hnext (hword _ _ _ _ _ _)
    case h_2 heq =>
      cases heq
      exact absurd hnext (hcolon _ _ _ _ _)
    case h_3 => rfl

theorem advances_declaredWidth : Advances declaredWidth := by
  intro ts hends
  obtain ⟨t, rest, hnext⟩ := hends.exists_next?
  rw [declaredWidth_of_next? hnext]
  by_cases hcolon : t.lexeme = .mark .colon
  · obtain ⟨hrest, hagain⟩ := advances_baseWidth 32 (hends.of_next? hnext (by simp [hcolon]))
    rw [if_pos hcolon]
    refine ⟨hrest, fun us => ?_⟩
    rw [declaredWidth_of_next? (next?_append hnext us), if_pos hcolon, hagain]
  · rw [if_neg hcolon]
    refine ⟨hends, fun us => ?_⟩
    rw [declaredWidth_of_next? (next?_append hnext us), if_neg hcolon]

/-- The line of a fault is that of a token in its part. -/
theorem lineOf_append (hne : ts ≠ []) (last' : Nat) (us : List Token) :
    lineOf last' (ts ++ us) = lineOf last ts := by
  cases ts with
  | nil => exact absurd rfl hne
  | cons t ts => rfl

/-- An enumeration depends on its part alone. -/
theorem continues_enumeration : Continues enumeration := by
  intro last ts item rest hends h
  obtain ⟨hscope, hscope'⟩ := advances_afterScope hends
  obtain ⟨htag, htag'⟩ := advances_optionalWord hscope
  obtain ⟨hwidth, hwidth'⟩ := advances_declaredWidth htag
  obtain ⟨t, body, hnext⟩ := hwidth.exists_next?
  have hnext' : ∀ us, next? (declaredWidth (optionalWord (afterScope (ts ++ us))).2).2 =
      some (t, body ++ us) := by
    intro us
    rw [hscope', htag', hwidth']
    exact next?_append hnext us
  rw [enumeration_of_next? hnext] at h
  split at h
  case isTrue hopen =>
    rcases hms : members last body with fault | ⟨ms, behind⟩
    · rw [hms] at h
      cases h
    rw [hms] at h
    cases h
    obtain ⟨hbehind, hms'⟩ := continues_members (hwidth.of_next? hnext (by simp [hopen])) hms
    obtain ⟨hname, hname'⟩ := advances_optionalWord hbehind
    refine ⟨hname, fun last' us => ?_⟩
    rw [enumeration_of_next? (hnext' us), if_pos hopen, hms', hscope', htag', hwidth']
    simp only [Except.map, hname']
  case isFalse hopen =>
    cases h
    refine ⟨hwidth, fun last' us => ?_⟩
    rw [enumeration_of_next? (hnext' us), if_neg hopen, hscope', htag', hwidth']
    rw [lineOf_append hwidth.ne_nil]

/-! ### Readings one behind the other -/

/-- A reading with another one behind its items. -/
def Reading.append (r r' : Reading) : Reading :=
  { r' with items := r.items ++ r'.items }

/-- One reading behind another adds its items to the schema of the first. -/
theorem Reading.result_append {r : Reading} (h : r.fault = none) (r' : Reading) :
    (r.append r').result {} = (r.result {}).bind r'.result := by
  obtain ⟨items, fault⟩ := r
  cases h
  rw [Reading.result, Reading.append, List.foldl_append]
  rfl

/-- A token that is read leaves tokens that end with a semicolon, or none at all. -/
theorem Ends.step (hends : Ends ts ∨ ts = []) (hnext : next? ts = some (t, rest)) :
    Ends ts ∧ (Ends rest ∨ rest = []) := by
  rcases hends with hends | rfl
  · by_cases hrest : rest = []
    · exact ⟨hends, .inr hrest⟩
    · exact ⟨hends, .inl (hends.of_suffix (suffix_of_next? hnext) hrest)⟩
  · cases hnext

/-- **Tokens that end with a semicolon and are read without fault are done with at their end.** -/
theorem readTokens_append (hends : Ends ts ∨ ts = [])
    (h : (readTokens last depth ts).fault = none) (last' : Nat) (us : List Token) :
    readTokens last' depth (ts ++ us) =
      (readTokens last depth ts).append (readTokens last' 0 us) := by
  fun_induction readTokens last depth ts with
  | case1 ts hnext =>
    rcases hends with hends | rfl
    · obtain ⟨t, rest, hsome⟩ := hends.exists_next?
      rw [hnext] at hsome
      cases hsome
    · rfl
  | case2 => cases h
  | case3 depth ts t rest hnext hopen ih =>
    rw [readTokens_eq, next?_append hnext]
    simp only [hopen]
    exact ih (Ends.step hends hnext).2 h
  | case4 => cases h
  | case5 ts t rest hnext hclose depth ih =>
    rw [readTokens_eq, next?_append hnext]
    simp only [hclose]
    exact ih (Ends.step hends hnext).2 h
  | case6 => cases h
  | case7 depth ts t rest hnext item after he hkey ih =>
    -- The keyword is no semicolon, so the enumeration ends in front of one.
    have hrest : Ends rest := (Ends.step hends hnext).1.of_next? hnext (by simp [hkey])
    obtain ⟨hafter, he'⟩ := continues_enumeration hrest he
    rw [readTokens_eq, next?_append hnext]
    simp only [hkey, if_true, he']
    rw [ih (.inl hafter) h]
    rfl
  | case8 depth ts t rest hnext name hname hkey ih =>
    rw [readTokens_eq, next?_append hnext]
    simp only [hname, if_neg hkey]
    exact ih (Ends.step hends hnext).2 h
  | case9 depth ts t rest hnext hopen hclose hword ih =>
    rw [readTokens_eq, next?_append hnext]
    simp only
    exact ih (Ends.step hends hnext).2 h

/-! ### The text of a header -/

/-- A header ends with the given characters, a semicolon and a line break, and the semicolon is a
token of it. -/
structure EndsWith (a front : List Char) : Prop where
  text : a = front ++ [';', '\n']
  token : ∃ t ∈ tokens a, t.lexeme = .mark .semicolon ∧ t.start = byteLength front

/-- The line break is a piece of its own. -/
theorem EndsWith.exists_pieces (h : EndsWith a front) :
    ∃ ps p, Piece.split true a = ps ++ [p, ⟨.blank, ['\n']⟩] ∧
      p.kind = .token (.mark .semicolon) := by
  obtain ⟨rfl, t, ht, hsemicolon, hstart⟩ := h
  obtain ⟨before, after, hts⟩ := List.append_of_mem ht
  have hsuffix : t :: after <:+ located 0 1 [] (Piece.split true (front ++ [';', '\n'])) := by
    rw [← tokens_eq_located, hts]
    exact List.suffix_append _ _
  obtain ⟨ps, p, qs, hsplit, hkind, hlocated⟩ :=
    exists_piece_of_suffix hsuffix (by simp [hsemicolon])
  rw [hsemicolon] at hkind
  -- The characters of the piece are the semicolon at the end.
  have htext := Piece.flatMap_text_split true (front ++ [';', '\n'])
  rw [hsplit, List.flatMap_append] at htext
  have hlength : byteLength (ps.flatMap Piece.text) = byteLength front := by
    simp only [located, Piece.tokens, hkind, List.singleton_append, List.cons.injEq] at hlocated
    rw [← hstart, hlocated.1, Nat.zero_add]
  obtain ⟨hfront, hrest⟩ := append_inj_of_byteLength htext hlength
  rw [hfront] at htext hlength
  obtain ⟨-, hbehind⟩ := Piece.split_of_append hsplit hfront
  obtain ⟨-, hbegins, -⟩ := Piece.begins_of_split hbehind
  have hp : p.text = [';'] := hbegins.text_of_mark hkind
  rw [List.flatMap_cons, hp] at hrest
  -- What is left is the line break.
  have hcut : Piece.split true ((front ++ [';']) ++ ['\n']) = (ps ++ [p]) ++ qs := by
    simpa using hsplit
  obtain ⟨-, hqs⟩ := Piece.split_of_append hcut (by simp [hfront, hp])
  have hbreak : ∀ fresh, Piece.split fresh ['\n'] = [⟨.blank, ['\n']⟩] := fun fresh =>
    (Piece.split_of_begins (p := ⟨.blank, ['\n']⟩) (.of_form (.blank rfl))).trans (by simp)
  exact ⟨ps, p, by rw [hsplit, ← hqs, hbreak], hkind⟩

/-- The tokens of a header in front of another text, and of that text behind it. -/
theorem EndsWith.tokens_append (h : EndsWith a front) (b : List Char) :
    tokens (a ++ b) = (tokens a).map (Motion.token ⟨0, 0, b⟩) ++
      (tokens b).map (Motion.token ⟨byteLength a, a.count '\n', []⟩) := by
  obtain ⟨ps, p, hsplit, -⟩ := h.exists_pieces
  have hall : Piece.split true (a ++ b) = Piece.split true a ++ Piece.split true b := by
    have hcut : Piece.split true a = (ps ++ [p]) ++ [⟨.blank, ['\n']⟩] := by simpa using hsplit
    have hfresh : Piece.freshAfter true (ps ++ [p] ++ [⟨.blank, ['\n']⟩]) = true := by
      simp [Piece.freshAfter, Piece.leavesFresh]
    rw [Piece.split_append hcut (.of_form (.blank rfl)), hfresh, hcut]
    simp
  rw [tokens_eq_located, hall, located_append, Piece.flatMap_text_split, Piece.flatMap_text_split,
    List.append_nil, tokens_eq_located, tokens_eq_located, map_token_located, map_token_located]
  rfl

/-- The semicolon is the last token. -/
theorem EndsWith.ends (h : EndsWith a front) : Ends (tokens a) := by
  obtain ⟨ps, p, hsplit, hp⟩ := h.exists_pieces
  have hlast : ∀ offset line, ∃ t, located offset line [] [p, ⟨.blank, ['\n']⟩] = [t] ∧
      t.lexeme = .mark .semicolon := by
    intro offset line
    rw [located, Piece.tokens, hp]
    exact ⟨_, rfl, rfl⟩
  obtain ⟨t, ht, hsemicolon⟩ := hlast (0 + byteLength (ps.flatMap Piece.text))
    (1 + (ps.flatMap Piece.text).count '\n')
  rw [tokens_eq_located, hsplit, located_append, ht]
  exact ⟨_, t, rfl, hsemicolon⟩

theorem reaches_tokens (text : List Char) : Reaches (byteLength text) (tokens text) := by
  have h := reaches_located 0 1 [] (Piece.split true text)
  rwa [← tokens_eq_located, Piece.flatMap_text_split, Nat.zero_add] at h

/-! ### Schemas one behind the other -/

/-- The group that an item declares, if it does. -/
def Item.group? : Item → Option Group
  | .group g => some g
  | .anonymous => none
  | .bodiless _ _ => none

/-- Only items that are groups add to a schema. -/
theorem foldl_addTo (items : List Item) (s : Schema) :
    items.foldl Item.addTo s = (items.filterMap Item.group?).foldl Schema.addGroup s := by
  induction items generalizing s with
  | nil => rfl
  | cons item items ih =>
    rw [List.foldl_cons, ih]
    cases item <;> rfl

/-- The groups that items add up to are those that they declare, merged by name. -/
theorem schemaOf_eq (items : List Item) :
    schemaOf items = { groups := Schema.merged (items.filterMap Item.group?) } := by
  have hnodup : ((Schema.of []).groups.map Group.name).Nodup := List.nodup_nil
  rw [schemaOf, foldl_addTo, Schema.foldl_addGroup hnodup]
  rfl

/-- Adding what has been added up counts like adding it item by item. -/
theorem foldl_addGroup_schemaOf {gs : List Group} (hs : s.groups = Schema.merged gs)
    (items : List Item) :
    (schemaOf items).groups.foldl Schema.addGroup s = items.foldl Item.addTo s := by
  have hnodup : (s.groups.map Group.name).Nodup := by
    rw [hs]
    exact Schema.nodup_merged gs
  have hmerged := Schema.merged_append_merged s.groups (items.filterMap Item.group?) []
  rw [List.append_nil, List.append_nil] at hmerged
  rw [schemaOf_eq, foldl_addTo, Schema.foldl_addGroup hnodup, Schema.foldl_addGroup hnodup,
    hmerged]

theorem Ends.map_token (h : Ends ts) (d : Motion) : Ends (ts.map d.token) := by
  obtain ⟨front, t, rfl, ht⟩ := h
  exact ⟨front.map d.token, d.token t, by rw [List.map_append, List.map_singleton], ht⟩

/-- A text that is read behind other tokens is read as by itself, with its lines moved. -/
theorem readTokens_map_token_tokens (d : Motion) (ts : List Token) (text : String) :
    readTokens (((ts ++ (tokens text.toList).map d.token).getLast?.map Token.line).getD 1) 0
      ((tokens text.toList).map d.token) = d.reading (read text) := by
  rcases List.eq_nil_or_concat (tokens text.toList) with hnil | ⟨init, t, hts⟩
  · rw [read, hnil, List.map_nil, readTokens_nil, readTokens_nil]
    rfl
  · have hread := readTokens_map_token d (reaches_tokens text.toList) t.line 0
    rw [List.concat_eq_append] at hts
    rw [read, hts] at *
    simpa using hread

/-- What two headers come to, given what the first one does. -/
theorem parse_append_eq {a b : String} (h : EndsWith a.toList front) (ha : parse a = .ok s) :
    parse (a ++ b) = ((read b).result s).mapError
      (Motion.fault ⟨byteLength a.toList, a.toList.count '\n', []⟩) := by
  have hfault : (Motion.reading ⟨0, 0, b.toList⟩ (read a)).fault = none := by
    rw [Motion.reading, (parse_eq_ok_iff.mp ha).1]
    rfl
  -- The tokens of the first header only have more text behind them.
  have hfirst : readTokens _ 0 ((tokens a.toList).map (Motion.token ⟨0, 0, b.toList⟩)) =
      Motion.reading _ (read a) := readTokens_map_token _ (reaches_tokens a.toList) _ 0
  have hread : read (a ++ b) = (Motion.reading ⟨0, 0, b.toList⟩ (read a)).append
      (Motion.reading ⟨byteLength a.toList, a.toList.count '\n', []⟩ (read b)) := by
    have hends := h.ends.map_token ⟨0, 0, b.toList⟩
    rw [read, String.toList_append, h.tokens_append,
      readTokens_append (.inl hends) (by rw [hfirst, hfault]), hfirst, readTokens_map_token_tokens]
  rw [parse_eq_result, hread, Reading.result_append hfault,
    Motion.result_reading, ← parse_eq_result, ha]
  exact Motion.result_reading _ _ _

/-- **Headers compose.** What is behind a header that ends with a semicolon and can be read is read
as by itself: its groups are added to those of the header, and a fault is on the line that the
header moves it to. -/
theorem parse_append {a b : String} (h : EndsWith a.toList front) (ha : parse a = .ok s) :
    (∀ s', parse b = .ok s' → parse (a ++ b) = .ok (s'.groups.foldl Schema.addGroup s)) ∧
    (∀ fault, parse b = .error fault →
      parse (a ++ b) = .error { fault with line := fault.line + a.toList.count '\n' }) := by
  rw [parse_append_eq h ha]
  have hs : s.groups = Schema.merged ((read a).items.filterMap Item.group?) := by
    rw [eq_schemaOf_of_parse ha, schemaOf_eq]
  constructor
  · intro s' hb
    obtain ⟨hnone, rfl⟩ := parse_eq_ok_iff.mp hb
    rw [foldl_addGroup_schemaOf hs, Reading.result, hnone]
    rfl
  · intro fault hb
    rw [Reading.result, parse_eq_error_iff.mp hb]
    rfl

/-- A header that declares a group with one member. -/
def lowTide : String :=
  "enum Tide \x7b LOW \x7d;\n"

/-- Behind `lowTide`, a group of the same name adds a member, and the line of a brace too many
counts on. -/
theorem parse_append_lowTide :
    EndsWith lowTide.toList "enum Tide \x7b LOW \x7d".toList ∧
    parse lowTide = .ok { groups := [⟨"Tide", .plain, 32, [⟨"LOW", .implicit, none⟩]⟩] } ∧
    parse (lowTide ++ "enum Tide \x7b HIGH = 4 \x7d;") = .ok { groups := [⟨"Tide", .plain, 32,
      [⟨"LOW", .implicit, none⟩, ⟨"HIGH", .literal 4 "4", none⟩]⟩] } ∧
    parse (lowTide ++ "\n\x7d") = .error ⟨3, .unbalancedBrace⟩ := by
  have hends : EndsWith lowTide.toList "enum Tide \x7b LOW \x7d".toList :=
    ⟨by decide +kernel, by decide +kernel⟩
  have hlow : parse lowTide =
      .ok { groups := [⟨"Tide", .plain, 32, [⟨"LOW", .implicit, none⟩]⟩] } := by decide +kernel
  have hhigh : parse "enum Tide \x7b HIGH = 4 \x7d;" =
      .ok { groups := [⟨"Tide", .plain, 32, [⟨"HIGH", .literal 4 "4", none⟩]⟩] } := by
    decide +kernel
  have hbrace : parse "\n\x7d" = .error ⟨2, .unbalancedBrace⟩ := by decide +kernel
  refine ⟨hends, hlow, ((parse_append hends hlow).1 _ hhigh).trans ?_, ?_⟩
  · decide
  · exact (parse_append hends hlow).2 _ hbrace

end Enumerant.Header
