import Enumerant.Proofs.Header.Passing

/-!
# Headers in other places

The readers tell tokens apart by what they are. Where a token stands matters only for comments,
which belong to the enumerator on their line, and for initializers, whose text goes from one token
to another. Both are the same wherever a text stands, so the tokens of a text are read in one place
as they are in another (`readTokens_map_token`): the items are the same and a fault moves along.
-/

namespace Enumerant.Header

open Text

variable {last depth line width offset stop : Nat} {name : String} {behind cs : List Char}
  {ts us rest : List Token} {t first final : Token} {p : Piece} {α : Type}

/-! ### Motions -/

/-- From one place of a text to another: how far it is away, and what follows it in addition. -/
structure Motion where
  bytes : Nat
  lines : Nat
  behind : List Char

namespace Motion

variable (d : Motion)

/-- A token in the other place. -/
def token (t : Token) : Token where
  lexeme := t.lexeme
  line := t.line + d.lines
  start := t.start + d.bytes
  stop := t.stop + d.bytes
  onward := t.onward ++ d.behind.flatMap String.utf8EncodeChar

/-- A fault in the other place. -/
def fault (f : Fault) : Fault :=
  { f with line := f.line + d.lines }

/-- An item in the other place. -/
def item : Item → Item
  | .group g => .group g
  | .anonymous => .anonymous
  | .bodiless tag line => .bodiless tag (line + d.lines)

/-- What a reader comes to in the other place. -/
def outcome (f : α → α) : Except Fault α → Except Fault α
  | .ok x => .ok (f x)
  | .error fault => .error (d.fault fault)

/-- A reading in the other place. -/
def reading (r : Reading) : Reading where
  items := r.items.map d.item
  fault := r.fault.map d.fault

@[simp] theorem lexeme_token (t : Token) : (d.token t).lexeme = t.lexeme := rfl

@[simp] theorem line_token (t : Token) : (d.token t).line = t.line + d.lines := rfl

/-- A moved item says the same. -/
theorem addTo_item (s : Schema) (item : Item) : (d.item item).addTo s = item.addTo s := by
  cases item <;> rfl

theorem item_itemOf (name : Option String) (width : Nat) (ms : List Member) :
    d.item (itemOf name width ms) = itemOf name width ms := by
  cases name <;> rfl

/-- A moved reading gives the same schema, or the fault on a moved line. -/
theorem result_reading (r : Reading) (s : Schema) :
    (d.reading r).result s = (r.result s).mapError d.fault := by
  obtain ⟨items, fault⟩ := r
  cases fault with
  | some fault => rfl
  | none =>
    refine congrArg Except.ok ?_
    rw [reading, List.foldl_map]
    simp only [addTo_item]

end Motion

/-! ### Tokens of a text -/

variable (d : Motion)

/-- The tokens of a piece move along with it. -/
theorem Piece.map_token_tokens (p : Piece) (offset line : Nat) (cs : List Char) :
    (p.tokens offset line ((p.text ++ cs).flatMap String.utf8EncodeChar)).map d.token =
      p.tokens (offset + d.bytes) (line + d.lines)
        ((p.text ++ (cs ++ d.behind)).flatMap String.utf8EncodeChar) := by
  obtain ⟨kind, text⟩ := p
  cases kind with
  | token l => simp [Piece.tokens, Motion.token, Nat.add_right_comm]
  | strays =>
    refine List.ext_getElem (by simp [Piece.tokens]) fun i hi _ => ?_
    have hle : i ≤ ((text ++ cs).flatMap String.utf8EncodeChar).length := by
      simp only [Piece.tokens, List.length_map, List.length_mapIdx] at hi
      rw [List.flatMap_append, List.length_append]
      omega
    have hdrop : (((text ++ cs).flatMap String.utf8EncodeChar).drop i) ++
        d.behind.flatMap String.utf8EncodeChar =
          ((text ++ (cs ++ d.behind)).flatMap String.utf8EncodeChar).drop i := by
      have hbytes : (text ++ cs ++ d.behind).flatMap String.utf8EncodeChar =
          (text ++ cs).flatMap String.utf8EncodeChar ++ d.behind.flatMap String.utf8EncodeChar :=
        List.flatMap_append
      rw [← List.append_assoc, hbytes, List.drop_append_of_le_length hle]
    simp only [Piece.tokens, List.getElem_map, List.getElem_mapIdx, Motion.token, hdrop,
      Nat.add_right_comm]
  | _ => rfl

/-- The tokens of pieces in another place. -/
theorem map_token_located (offset line : Nat) (behind : List Char) (ps : List Piece) :
    (located offset line behind ps).map d.token =
      located (offset + d.bytes) (line + d.lines) (behind ++ d.behind) ps := by
  induction ps generalizing offset line with
  | nil => rfl
  | cons p ps ih =>
    rw [located, located, List.map_append, List.flatMap_cons, List.append_assoc,
      Piece.map_token_tokens, ih, Nat.add_right_comm _ _ (byteLength p.text),
      Nat.add_right_comm _ _ (p.text.count '\n'), List.append_assoc p.text, List.append_assoc]

/-- No token goes beyond a position that the text behind each of them reaches. -/
def Reaches (stop : Nat) (ts : List Token) : Prop :=
  ∀ t ∈ ts, t.stop ≤ stop ∧ stop ≤ t.start + t.onward.length

theorem Reaches.of_suffix (h : Reaches stop ts) (hs : us <:+ ts) : Reaches stop us :=
  fun t ht => h t (hs.subset ht)

/-- The tokens of pieces reach up to the end of these. -/
theorem reaches_located (offset line : Nat) (behind : List Char) (ps : List Piece) :
    Reaches (offset + byteLength (ps.flatMap Piece.text)) (located offset line behind ps) := by
  induction ps generalizing offset line with
  | nil => exact fun t ht => absurd ht List.not_mem_nil
  | cons p ps ih =>
    intro t ht
    have hlength : byteLength ((p :: ps).flatMap Piece.text) =
        byteLength p.text + byteLength (ps.flatMap Piece.text) := byteLength_append _ _
    rcases List.mem_append.mp ht with ht | ht
    · obtain ⟨hstart, hstop, honward⟩ := Piece.extent_of_mem_tokens ht
      rw [honward, List.length_drop, length_flatMap_utf8EncodeChar, byteLength_append]
      omega
    · rw [hlength, ← Nat.add_assoc]
      exact ih _ _ t ht

/-! ### The text of an initializer -/

/-- A moved initializer has the same text. -/
theorem sourceText_token (hfirst : stop ≤ first.start + first.onward.length)
    (hfinal : final.stop ≤ stop) :
    sourceText (d.token first) (d.token final) = sourceText first final := by
  have hlength : final.stop - first.start ≤ first.onward.length := by omega
  have hsub : (d.token final).stop - (d.token first).start = final.stop - first.start :=
    Nat.add_sub_add_right _ _ _
  have horder : (d.token first).start ≤ (d.token final).stop ↔ first.start ≤ final.stop :=
    Nat.add_le_add_iff_right
  have htext : textBetween? (d.token first) (d.token final) = textBetween? first final := by
    have hlength' : final.stop - first.start ≤ (d.token first).onward.length :=
      hlength.trans (by simp [Motion.token])
    simp only [textBetween?, hsub, horder, hlength, hlength', and_true]
    rw [Motion.token, List.take_append_of_le_length hlength]
  rw [sourceText, htext, sourceText]

/-- A moved initializer is classified in the same way. -/
theorem classify_map_token (h : Reaches stop (first :: ts)) :
    classify (d.token first) (ts.map d.token) = classify first ts := by
  have hfinal : ts.getLastD first ∈ first :: ts := List.getLastD_mem_cons
  have htext := sourceText_token d (h first List.mem_cons_self).2 (h _ hfinal).1
  have hlast : (ts.map d.token).getLastD (d.token first) = d.token (ts.getLastD first) := by
    simp [List.getLastD_eq_getLast?, List.getLast?_map, Option.getD_map]
  have hlexemes : ((first :: ts).map d.token).map Token.lexeme =
      (first :: ts).map Token.lexeme := by
    rw [List.map_map]
    rfl
  rw [List.map_cons] at hlexemes
  simp only [classify, hlast, htext, hlexemes, Motion.lexeme_token]
  rcases ts with - | ⟨u, us⟩
  · rfl
  · cases first.lexeme <;> rfl

/-! ### Readers of tokens -/

theorem dropRemarks_map_token (ts : List Token) :
    dropRemarks (ts.map d.token) = (dropRemarks ts).map d.token := by
  induction ts with
  | nil => rfl
  | cons t ts ih =>
    rw [List.map_cons, dropRemarks, dropRemarks, Motion.lexeme_token]
    split
    · exact ih
    · rfl

/-- The next token moves along with the tokens. -/
theorem next?_map_token (ts : List Token) :
    next? (ts.map d.token) = (next? ts).map (Prod.map d.token (List.map d.token)) := by
  rw [next?, next?, dropRemarks_map_token]
  cases dropRemarks ts <;> rfl

theorem next?_map_of_next? (h : next? ts = some (t, rest)) :
    next? (ts.map d.token) = some (d.token t, rest.map d.token) := by
  rw [next?_map_token, h]
  rfl

/-- The line at which a fault is told moves along. -/
theorem lineOf_map_token (last : Nat) (ts : List Token) :
    lineOf (last + d.lines) (ts.map d.token) = lineOf last ts + d.lines := by
  cases ts <;> rfl

theorem word?_map_token (ts : List Token) :
    word? (ts.map d.token) = (word? ts).map (Prod.map id (List.map d.token)) := by
  rw [word?, word?, next?_map_token]
  rcases next? ts with - | ⟨⟨lexeme, line, start, stop, onward⟩, rest⟩
  · rfl
  · cases lexeme <;> rfl

/-- The tokens of an initializer move along, and so does its fault. -/
theorem initializerTokens_map_token (last depth : Nat) (ts : List Token) :
    initializerTokens (last + d.lines) depth (ts.map d.token) =
      d.outcome (Prod.map (List.map d.token) (List.map d.token))
        (initializerTokens last depth ts) := by
  fun_induction initializerTokens last depth ts with
  | case1 depth ts hnext =>
    rw [initializerTokens_eq, next?_map_token, hnext, Option.map_none, lineOf_map_token]
    rfl
  | case2 depth ts t rest hnext hstop =>
    rw [initializerTokens_eq, next?_map_of_next? d hnext]
    exact if_pos hstop
  | case3 depth ts t rest hnext hstop hbad =>
    rw [initializerTokens_eq, next?_map_of_next? d hnext, lineOf_map_token]
    exact (if_neg hstop).trans (if_pos hbad)
  | case4 depth ts t rest hnext hstop hbad expr after hmore ih =>
    rw [initializerTokens_eq, next?_map_of_next? d hnext]
    simp only [Motion.lexeme_token, if_neg hstop, if_neg hbad, ih, hmore]
    rfl
  | case5 depth ts t rest hnext hstop hbad fault hmore ih =>
    rw [initializerTokens_eq, next?_map_of_next? d hnext]
    simp only [Motion.lexeme_token, if_neg hstop, if_neg hbad, ih, hmore]
    rfl

/-- The value of an initializer stays, as its text does. -/
theorem initializer_map_token (h : Reaches stop ts) (last : Nat) :
    initializer (last + d.lines) (ts.map d.token) =
      d.outcome (Prod.map id (List.map d.token)) (initializer last ts) := by
  rw [initializer, initializer, initializerTokens_map_token]
  rcases hexpr : initializerTokens last 0 ts with fault | ⟨- | ⟨first, more⟩, rest⟩
  · rfl
  · exact congrArg (fun line => Except.error (Fault.mk line .emptyInitializer))
      (lineOf_map_token d last rest)
  · -- The tokens of the initializer are among those that the text reaches.
    obtain ⟨front, _, _, rfl, hfront, -⟩ := exists_of_initializerTokens hexpr
    have hmem : ∀ t ∈ first :: more, t ∈ front ++ rest := by
      intro t ht
      rw [← hfront] at ht
      exact List.mem_append_left _ (List.mem_of_mem_filter ht)
    have hclass := classify_map_token d fun t ht => h t (hmem t ht)
    exact congrArg (fun value => Except.ok (value, rest.map d.token)) hclass

theorem trailingRemark_map_token (line : Nat) (ts : List Token) :
    trailingRemark (line + d.lines) (ts.map d.token) =
      Prod.map id (List.map d.token) (trailingRemark line ts) := by
  rcases ts with - | ⟨⟨lexeme, n, start, stop, onward⟩, ts⟩
  · rfl
  cases lexeme with
  | remark text =>
    by_cases hline : n = line <;> simp [trailingRemark, Motion.token, hline]
  | _ => rfl

theorem memberValue_map_token (h : Reaches stop ts) (last : Nat) :
    memberValue (last + d.lines) (ts.map d.token) =
      d.outcome (Prod.map id (List.map d.token)) (memberValue last ts) := by
  rcases hnext : next? ts with - | ⟨t, rest⟩
  · rw [memberValue, memberValue, next?_map_token, hnext]
    rfl
  · rw [memberValue_of_next? (next?_map_of_next? d hnext), memberValue_of_next? hnext,
      Motion.lexeme_token]
    split
    · exact initializer_map_token d (h.of_suffix (suffix_of_next? hnext)) last
    · rfl

theorem afterSeparator_map_token (last : Nat) (name : String) (ts : List Token) :
    afterSeparator (last + d.lines) name (ts.map d.token) =
      d.outcome (List.map d.token) (afterSeparator last name ts) := by
  rcases hnext : next? ts with - | ⟨t, rest⟩
  · rw [afterSeparator, afterSeparator, next?_map_token, hnext, lineOf_map_token]
    rfl
  · rw [afterSeparator_of_next? (next?_map_of_next? d hnext), afterSeparator_of_next? hnext,
      Motion.lexeme_token, lineOf_map_token]
    split_ifs <;> rfl

/-- A member stays when it is moved. -/
theorem member_map_token (h : Reaches stop ts) (last : Nat) (name : String) (line : Nat) :
    member (last + d.lines) name (line + d.lines) (ts.map d.token) =
      d.outcome (Prod.map id (List.map d.token)) (member last name line ts) := by
  rw [member, member, memberValue_map_token d h]
  rcases memberValue last ts with fault | ⟨value, after⟩
  · rfl
  have hbefore := trailingRemark_map_token d line after
  have hseparator := afterSeparator_map_token d last name (trailingRemark line after).2
  simp only [Motion.outcome, Prod.map, id_eq] at hbefore hseparator ⊢
  rw [hbefore, hseparator]
  rcases afterSeparator last name (trailingRemark line after).2 with fault | rest
  · rfl
  have hafter := trailingRemark_map_token d line rest
  cases (trailingRemark line after).1 with
  | some text => rfl
  | none =>
    simp only [hafter, Prod.map, id_eq]

/-- All members stay. -/
theorem members_map_token (h : Reaches stop ts) (last : Nat) :
    members (last + d.lines) (ts.map d.token) =
      d.outcome (Prod.map id (List.map d.token)) (members last ts) := by
  -- The induction follows the reading of the tokens that stay; those that move take the same way.
  fun_induction members last ts with
  | case1 ts hnext =>
    rw [members_eq, next?_map_token, hnext]
    rfl
  | case2 ts t rest hnext hclose =>
    rw [members_eq, next?_map_of_next? d hnext]
    simp only [Motion.lexeme_token, hclose]
    rfl
  | case3 ts t rest hnext hcomma ih =>
    rw [members_eq, next?_map_of_next? d hnext]
    simp only [Motion.lexeme_token, hcomma]
    exact ih (h.of_suffix (suffix_of_next? hnext))
  | case4 ts t rest hnext name hname fault hm =>
    rw [members_eq, next?_map_of_next? d hnext]
    have hm' := member_map_token d (h.of_suffix (suffix_of_next? hnext)) last name t.line
    simp only [Motion.lexeme_token, Motion.line_token, hname, hm', hm]
    rfl
  | case5 ts t rest hnext name hname m after hm ms behind hms ih =>
    rw [members_eq, next?_map_of_next? d hnext]
    have hrest := h.of_suffix (suffix_of_next? hnext)
    have hm' := member_map_token d hrest last name t.line
    have hms' := ih (hrest.of_suffix (member_suffix hm))
    rw [hm] at hm'
    rw [hms] at hms'
    simp only [Motion.lexeme_token, Motion.line_token, hname, hm', Motion.outcome, Prod.map, hms']
    rfl
  | case6 ts t rest hnext name hname m after hm fault hms ih =>
    rw [members_eq, next?_map_of_next? d hnext]
    have hrest := h.of_suffix (suffix_of_next? hnext)
    have hm' := member_map_token d hrest last name t.line
    have hms' := ih (hrest.of_suffix (member_suffix hm))
    rw [hm] at hm'
    rw [hms] at hms'
    simp only [Motion.lexeme_token, Motion.line_token, hname, hm', Motion.outcome, Prod.map, hms']
  | case7 ts t rest hnext hclose hcomma hword =>
    rw [members_eq, next?_map_of_next? d hnext]
    simp only [Motion.lexeme_token, lineOf_map_token]
    rfl

theorem optionalWord_map_token (ts : List Token) :
    optionalWord (ts.map d.token) = Prod.map id (List.map d.token) (optionalWord ts) := by
  rw [optionalWord, optionalWord, word?_map_token]
  rcases word? ts with - | ⟨name, rest⟩ <;> rfl

theorem afterScope_map_token (ts : List Token) :
    afterScope (ts.map d.token) = (afterScope ts).map d.token := by
  rw [afterScope, afterScope, word?_map_token]
  rcases word? ts with - | ⟨name, rest⟩
  · rfl
  by_cases hname : name = "class" ∨ name = "struct" <;> simp [hname]

theorem baseWidth_map_token (width : Nat) (ts : List Token) :
    baseWidth width (ts.map d.token) = Prod.map id (List.map d.token) (baseWidth width ts) := by
  fun_induction baseWidth width ts with
  | case1 width ts name line start stop onward rest hnext ih =>
    rw [baseWidth_eq, next?_map_of_next? d hnext]
    exact ih
  | case2 width ts line start stop onward rest hnext ih =>
    rw [baseWidth_eq, next?_map_of_next? d hnext]
    exact ih
  | case3 width ts hword hcolon =>
    rw [baseWidth_eq, next?_map_token]
    rcases hnext : next? ts with - | ⟨⟨lexeme, line, start, stop, onward⟩, rest⟩
    · rfl
    cases lexeme with
    | word name => exact absurd hnext (hword _ _ _ _ _ _)
    | mark p => cases p <;> first | rfl | exact absurd hnext (hcolon _ _ _ _ _)
    | _ => rfl

/-- The width of a base type stays. -/
theorem declaredWidth_map_token (ts : List Token) :
    declaredWidth (ts.map d.token) = Prod.map id (List.map d.token) (declaredWidth ts) := by
  rcases hnext : next? ts with - | ⟨t, rest⟩
  · rw [declaredWidth, declaredWidth, next?_map_token, hnext]
    rfl
  · rw [declaredWidth_of_next? (next?_map_of_next? d hnext), declaredWidth_of_next? hnext,
      Motion.lexeme_token]
    split
    · exact baseWidth_map_token d 32 rest
    · rfl

/-- An enumeration stays when it is moved. -/
theorem enumeration_map_token (h : Reaches stop ts) (last : Nat) :
    enumeration (last + d.lines) (ts.map d.token) =
      d.outcome (Prod.map d.item (List.map d.token)) (enumeration last ts) := by
  have hbody := h.of_suffix (body_suffix ts)
  -- What stands in front of the body is read alike, so the same token decides whether one follows.
  have hstart : declaredWidth (optionalWord (afterScope (ts.map d.token))).2 =
      Prod.map id (List.map d.token) (declaredWidth (optionalWord (afterScope ts)).2) := by
    rw [afterScope_map_token, optionalWord_map_token, Prod.map, declaredWidth_map_token]
  have htag : (optionalWord (afterScope (ts.map d.token))).1 =
      (optionalWord (afterScope ts)).1 := by
    rw [afterScope_map_token, optionalWord_map_token]
    rfl
  rcases hnext : next? (declaredWidth (optionalWord (afterScope ts)).2).2 with - | ⟨t, rest⟩
  · simp only [enumeration, hstart, htag, Prod.map, next?_map_token, hnext, lineOf_map_token]
    rfl
  · have hnext' : next? (declaredWidth (optionalWord (afterScope (ts.map d.token))).2).2 =
        some (d.token t, rest.map d.token) := by
      rw [hstart]
      exact next?_map_of_next? d hnext
    rw [enumeration_of_next? hnext', enumeration_of_next? hnext, Motion.lexeme_token, hstart, htag]
    split
    · rw [members_map_token d (hbody.of_suffix (suffix_of_next? hnext))]
      rcases members last rest with fault | ⟨ms, behind⟩
      · rfl
      · simp only [Motion.outcome, Prod.map, Except.map, optionalWord_map_token, id_eq,
          Motion.item_itemOf]
    · simp only [Prod.map, lineOf_map_token]
      rfl

/-- **A text is read in one place as in another.** -/
theorem readTokens_map_token (h : Reaches stop ts) (last depth : Nat) :
    readTokens (last + d.lines) depth (ts.map d.token) = d.reading (readTokens last depth ts) := by
  -- As for members, the induction follows the reading of the tokens that stay.
  fun_induction readTokens last depth ts with
  | case1 ts hnext =>
    rw [readTokens_eq, next?_map_token, hnext]
    rfl
  | case2 depth ts hnext hdepth =>
    rw [readTokens_eq, next?_map_token, hnext]
    exact if_neg hdepth
  | case3 depth ts t rest hnext hopen ih =>
    rw [readTokens_eq, next?_map_of_next? d hnext]
    simp only [Motion.lexeme_token, hopen]
    exact ih (h.of_suffix (suffix_of_next? hnext))
  | case4 ts t rest hnext hclose =>
    rw [readTokens_eq, next?_map_of_next? d hnext]
    simp only [Motion.lexeme_token, hclose, lineOf_map_token]
    rfl
  | case5 ts t rest hnext hclose depth ih =>
    rw [readTokens_eq, next?_map_of_next? d hnext]
    simp only [Motion.lexeme_token, hclose]
    exact ih (h.of_suffix (suffix_of_next? hnext))
  | case6 depth ts t rest hnext fault he hkey =>
    rw [readTokens_eq, next?_map_of_next? d hnext]
    have he' := enumeration_map_token d (h.of_suffix (suffix_of_next? hnext)) last
    simp only [Motion.lexeme_token, hkey, if_true, he', he]
    rfl
  | case7 depth ts t rest hnext item after he hkey ih =>
    rw [readTokens_eq, next?_map_of_next? d hnext]
    have hrest := h.of_suffix (suffix_of_next? hnext)
    have he' := enumeration_map_token d hrest last
    rw [he] at he'
    simp only [Motion.lexeme_token, hkey, if_true, he', Motion.outcome, Prod.map,
      ih (hrest.of_suffix (enumeration_suffix he))]
    rfl
  | case8 depth ts t rest hnext name hname hkey ih =>
    rw [readTokens_eq, next?_map_of_next? d hnext]
    simp only [Motion.lexeme_token, hname, if_neg hkey]
    exact ih (h.of_suffix (suffix_of_next? hnext))
  | case9 depth ts t rest hnext hopen hclose hword ih =>
    rw [readTokens_eq, next?_map_of_next? d hnext]
    simp only [Motion.lexeme_token]
    exact ih (h.of_suffix (suffix_of_next? hnext))

end Enumerant.Header
