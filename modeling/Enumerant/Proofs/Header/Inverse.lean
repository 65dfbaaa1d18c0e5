import Enumerant.Proofs.Header.Layout
import Enumerant.Proofs.Header.Passing

/-!
# Reading inverts printing

A header that was printed from its parts is read back as the schema that the parts stand for,
whatever white space stands between the tokens (`parse_layout`). Every reader gets tokens that come
from a layout and leaves tokens that come from the rest of it, so that the readers follow one
another as the tokens of a part do: initializers (`memberValue_of_renders`), bodies
(`members_of_renders`), what stands in front of a body (`optionalWord_of_renders`,
`declaredWidth_of_renders`) and parts as a whole (`result_readTokens_part`).
-/

namespace Enumerant.Header.Abstract

open Text

variable {bs as : List Atom} {a : Atom} {t : Token} {us ts rest behind expr : List Token}
  {last depth line : Nat} {name : String}

/-! ### Initializers -/

/-- What stands in an initializer does not end it. -/
theorem Atom.lexeme_ne_mark (h : a.isInner) {p : Punctuation}
    (hp : p ∈ [.comma, .closeBrace, .semicolon, .openBrace]) : a.lexeme ≠ .mark p := by
  cases a with
  | number n => exact numberLexeme_ne_mark _ p
  | mark q =>
    rintro ⟨⟩
    exact of_decide_eq_true h hp
  | word w => cases h
  | other c hc => cases h

theorem Atom.lexeme_ne_word (h : a.isInner) (name : String) : a.lexeme ≠ .word name := by
  cases a with
  | number n => exact numberLexeme_ne_word _ name
  | mark q => exact Lexeme.noConfusion
  | word w => cases h
  | other c hc => cases h

/-- A layout has no comments. -/
theorem Renders.startSolid (h : Renders as ts) : StartSolid ts := by
  rintro t ht
  have hmem : t.lexeme ∈ as.map Atom.lexeme :=
    h.map_lexeme ▸ List.mem_map_of_mem (List.mem_of_mem_head? ht)
  obtain ⟨a, -, ha⟩ := List.mem_map.mp hmem
  exact ha ▸ a.isSolid_lexeme

/-- An initializer goes on behind a token that does not end it. -/
theorem initializerTokens_cons_inner (ha : a.isInner) (ht : t.lexeme = a.lexeme)
    (h : initializerTokens last (depthAfter a.lexeme depth) ts = .ok (expr, rest)) :
    initializerTokens last depth (t :: ts) = .ok (t :: expr, rest) := by
  have hne : ∀ p ∈ [Punctuation.comma, .closeBrace, .semicolon, .openBrace],
      t.lexeme ≠ .mark p := fun p hp => ht ▸ Atom.lexeme_ne_mark ha hp
  have hsolid : ∀ text, t.lexeme ≠ .remark text :=
    Lexeme.isSolid_iff.mp (ht ▸ a.isSolid_lexeme)
  rw [initializerTokens_cons (hne _ (by simp)) (hne _ (by simp)) (hne _ (by simp))
    (hne _ (by simp)) hsolid, ht, h]

theorem depthAfter_number (n : Number) (depth : Nat) :
    depthAfter (Atom.number n).lexeme depth = depth := by
  unfold depthAfter
  split
  case h_1 h => exact absurd h (numberLexeme_ne_mark _ _)
  case h_2 h => exact absurd h (numberLexeme_ne_mark _ _)
  case h_3 => rfl

/-- The tokens of an expression belong to the initializer, however deep it stands. -/
theorem initializerTokens_append {n : Nat} (e : Constant n)
    (hus : us.map Token.lexeme = e.atoms.map Atom.lexeme)
    (h : initializerTokens last depth ts = .ok (expr, rest)) :
    initializerTokens last depth (us ++ ts) = .ok (us ++ expr, rest) := by
  induction e generalizing depth us ts expr with
  | number n =>
    obtain ⟨t, ws, rfl, ht, hnil⟩ := List.map_eq_cons_iff.mp hus
    obtain rfl := List.map_eq_nil_iff.mp hnil
    refine initializerTokens_cons_inner rfl ht ?_
    rw [depthAfter_number]
    exact h
  | parentheses e ih =>
    -- Inside the depth is one more, and the closing parenthesis takes it back.
    obtain ⟨opening, ws, rfl, hopening, hws⟩ := List.map_eq_cons_iff.mp hus
    rw [List.map_append] at hws
    obtain ⟨inner, cs, rfl, hinner, hcs⟩ := List.map_eq_append_iff.mp hws
    obtain ⟨closing, ds, rfl, hclosing, hnil⟩ := List.map_eq_cons_iff.mp hcs
    obtain rfl := List.map_eq_nil_iff.mp hnil
    have hbehind : initializerTokens last (depth + 1) (closing :: ts) =
        .ok (closing :: expr, rest) :=
      initializerTokens_cons_inner (a := .mark .closeParen) rfl hclosing h
    have hall := ih hinner hbehind
    simp only [List.cons_append, List.append_assoc, List.nil_append]
    exact initializerTokens_cons_inner (a := .mark .openParen) rfl hopening hall
  | signed s e ih =>
    obtain ⟨sign, ws, rfl, hsign, hws⟩ := List.map_eq_cons_iff.mp hus
    refine initializerTokens_cons_inner (a := .mark s.mark) (by cases s <;> rfl) hsign ?_
    have hdepth : depthAfter (Atom.mark s.mark).lexeme depth = depth := by cases s <;> rfl
    rw [hdepth]
    exact ih hws h
  | binary op l r ihl ihr =>
    rw [Constant.atoms, List.map_append] at hus
    obtain ⟨vs, ws, rfl, hvs, hws⟩ := List.map_eq_append_iff.mp hus
    obtain ⟨sign, ws, rfl, hsign, hws⟩ := List.map_eq_cons_iff.mp hws
    have hdepth : depthAfter (Atom.mark op.mark).lexeme depth = depth := by cases op <;> rfl
    have hright : initializerTokens last depth (sign :: (ws ++ ts)) =
        .ok (sign :: (ws ++ expr), rest) := by
      refine initializerTokens_cons_inner (a := .mark op.mark) (by cases op <;> rfl) hsign ?_
      rw [hdepth]
      exact ihr hws h
    have hall := ihl hvs hright
    simp only [List.append_assoc, List.cons_append]
    exact hall
  | lower hn e ih => exact ih hus h

/-- An initializer is classified from its tokens. -/
theorem initializer_of_initializerTokens {first : Token} {more : List Token}
    (h : initializerTokens last 0 ts = .ok (first :: more, rest)) :
    initializer last ts = .ok (classify first more, rest) := by
  rw [initializer, h]

/-- The tokens of an expression are classified by its value. -/
theorem classify_of_renders {e : Constant 0} {first : Token} {more : List Token}
    (h : Renders e.atoms (first :: more)) :
    classify first more = (Value.constant e).initializer := by
  have hlexemes := h.map_lexeme
  have htext := h.sourceText_eq fun a => Constant.isInner_of_mem
  rcases classify_cases first more with ⟨name, hname, -⟩ | ⟨v, hv, hclass⟩ | ⟨hno, -, hclass⟩
  · -- No name stands among the tokens of an expression.
    have hmem : .word name ∈ e.atoms.map Atom.lexeme := by
      rw [← hlexemes, hname]
      exact List.mem_singleton_self _
    obtain ⟨a, ha, hword⟩ := List.mem_map.mp hmem
    exact absurd hword (Atom.lexeme_ne_word (Constant.isInner_of_mem ha) name)
  · rw [hlexemes, Constant.constant?_atoms] at hv
    rw [hclass, htext, Value.initializer, hv]
  · rw [hlexemes, Constant.constant?_atoms] at hno
    rw [hclass, htext, Value.initializer, hno]

/-- Nothing is written where an initializer would end. -/
theorem memberValue_of_ends (hends : t.lexeme = .mark .comma ∨ t.lexeme = .mark .closeBrace)
    (last : Nat) (ts : List Token) :
    memberValue last (t :: ts) = .ok (.implicit, t :: ts) := by
  have hsolid : ∀ text, t.lexeme ≠ .remark text := by rcases hends with h | h <;> simp [h]
  have hno : t.lexeme ≠ .mark .assign := by rcases hends with h | h <;> simp [h]
  rw [memberValue_of_next? (next?_cons hsolid ts), if_neg hno]

/-- Behind the sign of equality stands an initializer. -/
theorem memberValue_cons_assign (ht : t.lexeme = .mark .assign) (last : Nat) (ts : List Token) :
    memberValue last (t :: ts) = initializer last ts := by
  rw [memberValue_of_next? (next?_cons (by simp [ht]) ts), if_pos ht]

/-- One word alone is a reference, whatever the word is. -/
theorem initializer_word (ht : t.lexeme = .word name)
    (hrest : initializerTokens last 0 ts = .ok ([], rest)) :
    initializer last (t :: ts) = .ok (.reference name, rest) := by
  have htokens : initializerTokens last 0 (t :: ts) = .ok ([t], rest) := by
    rw [initializerTokens_cons (by simp [ht]) (by simp [ht]) (by simp [ht]) (by simp [ht])
      (by simp [ht]), ht]
    simp only [depthAfter, hrest]
  rw [initializer_of_initializerTokens htokens]
  simp only [classify, ht]

/-- A constant that is laid out is read as the initializer that is written. -/
theorem initializer_of_renders {e : Constant 0} (hus : Renders e.atoms us)
    (hrest : initializerTokens last 0 ts = .ok ([], rest)) :
    initializer last (us ++ ts) = .ok ((Value.constant e).initializer, rest) := by
  have htokens := initializerTokens_append e hus.map_lexeme hrest
  rw [List.append_nil] at htokens
  cases us with
  | nil => exact absurd (List.map_eq_nil_iff.mp hus.map_lexeme.symm) e.atoms_ne_nil
  | cons first more =>
    rw [initializer_of_initializerTokens htokens, classify_of_renders hus]

/-- What is written behind the name of an enumerator is read up to the comma or the brace. -/
theorem memberValue_of_renders (v : Value) {p : Punctuation} (hp : p = .comma ∨ p = .closeBrace)
    (h : Renders (v.atoms ++ .mark p :: bs) ts) (last : Nat) :
    ∃ rest, Renders (.mark p :: bs) rest ∧ memberValue last ts = .ok (v.initializer, rest) := by
  obtain ⟨us, vs, rfl, hus, hvs⟩ := h.append
  obtain ⟨stop, ws, rfl, hstop, -⟩ := hvs.exists_cons
  have hends : stop.lexeme = .mark .comma ∨ stop.lexeme = .mark .closeBrace := by
    rcases hp with rfl | rfl
    · exact .inl hstop
    · exact .inr hstop
  have hrest := initializerTokens_cons_stop hends last ws
  refine ⟨_, hvs, ?_⟩
  cases v with
  | implicit =>
    obtain rfl := hus.eq_nil
    exact memberValue_of_ends hends last ws
  | reference w =>
    obtain ⟨equals, us, rfl, hequals, hus⟩ := hus.exists_cons
    obtain ⟨word, us, rfl, hword, hnil⟩ := hus.exists_cons
    obtain rfl := hnil.eq_nil
    exact (memberValue_cons_assign hequals last _).trans (initializer_word hword hrest)
  | constant e =>
    obtain ⟨equals, us, rfl, hequals, hus⟩ := hus.exists_cons
    exact (memberValue_cons_assign hequals last _).trans (initializer_of_renders hus hrest)

/-! ### Bodies -/

/-- A member without comments. -/
theorem member_of_startSolid {value : Initializer}
    (hvalue : memberValue last ts = .ok (value, us)) (hus : StartSolid us)
    (hsep : afterSeparator last name us = .ok rest) (hrest : StartSolid rest) :
    member last name line ts = .ok (⟨name, value, none⟩, rest) := by
  unfold member
  simp only [hvalue, trailingRemark_of_startSolid hus, hsep, trailingRemark_of_startSolid hrest]

/-- An enumerator in front of a comma takes the comma along. -/
theorem member_of_renders_comma (v : Value) (h : Renders (v.atoms ++ .mark .comma :: bs) ts)
    (last line : Nat) (name : String) :
    ∃ rest, Renders bs rest ∧
      member last name line ts = .ok (⟨name, v.initializer, none⟩, rest) := by
  obtain ⟨us, hus, hvalue⟩ := memberValue_of_renders v (.inl rfl) h last
  obtain ⟨comma, rest, rfl, hcomma, hrest⟩ := hus.exists_cons
  have hcomma' : comma.lexeme = .mark .comma := hcomma
  have hsep : afterSeparator last name (comma :: rest) = .ok rest := by
    rw [afterSeparator_of_next? (next?_cons (by simp [hcomma']) rest), if_pos hcomma']
  exact ⟨rest, hrest, member_of_startSolid hvalue hus.startSolid hsep hrest.startSolid⟩

/-- An enumerator in front of a closing brace leaves the brace. -/
theorem member_of_renders_close (v : Value) (h : Renders (v.atoms ++ .mark .closeBrace :: bs) ts)
    (last line : Nat) (name : String) :
    ∃ rest, Renders (.mark .closeBrace :: bs) rest ∧
      member last name line ts = .ok (⟨name, v.initializer, none⟩, rest) := by
  obtain ⟨us, hus, hvalue⟩ := memberValue_of_renders v (.inr rfl) h last
  obtain ⟨brace, rest, rfl, hbrace, -⟩ := hus.exists_cons
  have hbrace' : brace.lexeme = .mark .closeBrace := hbrace
  have hsep : afterSeparator last name (brace :: rest) = .ok (brace :: rest) := by
    rw [afterSeparator_of_next? (next?_cons (by simp [hbrace']) rest), if_neg (by simp [hbrace']),
      if_pos hbrace']
  exact ⟨_, hus, member_of_startSolid hvalue hus.startSolid hsep hus.startSolid⟩

/-- A comma stands behind every enumerator but possibly the last. -/
theorem bodyAtoms_cons (e : Enumerator) (es : List Enumerator) (trailing : Bool) :
    (∃ trailing', Declaration.bodyAtoms (e :: es) trailing =
      e.atoms ++ .mark .comma :: Declaration.bodyAtoms es trailing') ∨
    es = [] ∧ Declaration.bodyAtoms (e :: es) trailing = e.atoms := by
  cases es with
  | nil =>
    cases trailing with
    | true => exact .inl ⟨false, by simp [Declaration.bodyAtoms]⟩
    | false => exact .inr ⟨rfl, by simp [Declaration.bodyAtoms]⟩
  | cons e' es =>
    refine .inl ⟨trailing, ?_⟩
    simp only [Declaration.bodyAtoms, List.map_cons, List.intercalate_cons_cons, List.append_assoc,
      List.cons_append, List.nil_append]

/-- **A body is read as its enumerators.** -/
theorem members_of_renders (es : List Enumerator) (trailing : Bool)
    (h : Renders (Declaration.bodyAtoms es trailing ++ .mark .closeBrace :: bs) ts) (last : Nat) :
    ∃ rest, Renders bs rest ∧ members last ts = .ok (es.map Enumerator.member, rest) := by
  induction es generalizing trailing ts with
  | nil =>
    cases trailing with
    | true =>
      obtain ⟨comma, us, rfl, hcomma, hus⟩ := h.exists_cons
      obtain ⟨brace, rest, rfl, hbrace, hrest⟩ := hus.exists_cons
      exact ⟨rest, hrest, by rw [members_cons_comma hcomma, members_cons_close hbrace]; rfl⟩
    | false =>
      obtain ⟨brace, rest, rfl, hbrace, hrest⟩ := h.exists_cons
      exact ⟨rest, hrest, members_cons_close hbrace last rest⟩
  | cons e es ih =>
    rcases bodyAtoms_cons e es trailing with ⟨trailing', hbody⟩ | ⟨rfl, hbody⟩
    · -- The comma goes with the enumerator in front of it, and a body is left.
      rw [hbody, Enumerator.atoms, List.append_assoc] at h
      obtain ⟨word, us, rfl, hword, hus⟩ := h.exists_cons
      obtain ⟨vs, hvs, hmember⟩ := member_of_renders_comma e.value hus last word.line e.name.text
      obtain ⟨rest, hrest, hmembers⟩ := ih trailing' hvs
      refine ⟨rest, hrest, ?_⟩
      rw [members_cons_word hword, hmember]
      simp only [hmembers]
      rfl
    · -- Without a comma this is the last enumerator, and it leaves the brace.
      rw [hbody, Enumerator.atoms] at h
      obtain ⟨word, us, rfl, hword, hus⟩ := h.exists_cons
      obtain ⟨vs, hvs, hmember⟩ := member_of_renders_close e.value hus last word.line e.name.text
      obtain ⟨brace, rest, rfl, hbrace, hrest⟩ := hvs.exists_cons
      refine ⟨rest, hrest, ?_⟩
      rw [members_cons_word hword, hmember]
      simp only [members_cons_close hbrace]
      rfl

/-! ### In front of a body -/

/-- The word that is read in front of a punctuation, if there is one. -/
theorem optionalWord_of_renders (w : Option Word) {p : Punctuation}
    (h : Renders (w.toList.map .word ++ .mark p :: bs) ts) :
    ∃ rest, Renders (.mark p :: bs) rest ∧ optionalWord ts = (w.map Word.text, rest) := by
  cases w with
  | none =>
    obtain ⟨t, us, rfl, ht, hus⟩ := h.exists_cons
    have ht' : t.lexeme = .mark p := ht
    exact ⟨_, h, optionalWord_cons_of_ne (by simp [ht']) (by simp [ht']) us⟩
  | some w =>
    obtain ⟨t, us, rfl, ht, hus⟩ := h.exists_cons
    exact ⟨us, hus, optionalWord_cons ht us⟩

/-- A word that makes an enumeration scoped is passed over, and the tag is none. -/
theorem afterScope_of_renders (d : Declaration) {p : Punctuation}
    (h : Renders (d.scope.toList.map .word ++ (d.tag.toList.map .word ++ .mark p :: bs)) ts) :
    Renders (d.tag.toList.map .word ++ .mark p :: bs) (afterScope ts) := by
  cases hscope : d.scope with
  | some w =>
    rw [hscope] at h
    obtain ⟨t, us, rfl, ht, hus⟩ := h.exists_cons
    rw [afterScope_cons_scope ht (d.isScope w hscope)]
    exact hus
  | none =>
    rw [hscope] at h
    -- Neither a tag nor what stands in its place is taken for the word.
    suffices hstay : afterScope ts = ts by
      rw [hstay]
      exact h
    cases htag : d.tag with
    | some w =>
      rw [htag] at h
      obtain ⟨t, us, rfl, ht, hus⟩ := h.exists_cons
      exact afterScope_cons ht (d.not_isScope w htag) us
    | none =>
      rw [htag] at h
      obtain ⟨t, us, rfl, ht, hus⟩ := h.exists_cons
      have ht' : t.lexeme = .mark p := ht
      exact afterScope_cons_of_ne (by simp [ht']) (by simp [ht']) us

/-- The last known word of a base type gives the width. -/
theorem baseWidth_of_renders (parts : List TypePart) (width : Nat)
    (h : Renders (parts.map TypePart.atom ++ .mark .openBrace :: bs) ts) :
    ∃ rest, Renders (.mark .openBrace :: bs) rest ∧
      baseWidth width ts = ((parts.filterMap TypePart.width?).getLast?.getD width, rest) := by
  induction parts generalizing width ts with
  | nil =>
    obtain ⟨t, us, rfl, ht, hus⟩ := h.exists_cons
    exact ⟨_, h, baseWidth_cons_open ht width us⟩
  | cons part parts ih =>
    obtain ⟨t, us, rfl, ht, hus⟩ := h.exists_cons
    cases part with
    | word w =>
      obtain ⟨rest, hrest, hwidth⟩ := ih ((widthOfType? w.text).getD width) hus
      refine ⟨rest, hrest, ?_⟩
      rw [baseWidth_cons_word ht, hwidth]
      -- A known word replaces the width, and a later one replaces it again.
      cases hw : widthOfType? w.text with
      | none => simp [TypePart.width?, ← widthOfType?_eq_lookup, hw]
      | some n => simp [TypePart.width?, ← widthOfType?_eq_lookup, hw, List.getLast?_cons]
    | colon =>
      obtain ⟨rest, hrest, hwidth⟩ := ih width hus
      refine ⟨rest, hrest, ?_⟩
      rw [baseWidth_cons_colon ht, hwidth]
      simp [TypePart.width?]

/-- The width of a declaration is that of its base type. -/
theorem declaredWidth_of_renders (d : Declaration)
    (h : Renders (Declaration.baseAtoms d.base ++ .mark .openBrace :: bs) ts) :
    ∃ rest, Renders (.mark .openBrace :: bs) rest ∧ declaredWidth ts = (d.declaredWidth, rest) := by
  unfold Declaration.declaredWidth
  cases hbase : d.base with
  | none =>
    rw [hbase] at h
    obtain ⟨t, us, rfl, ht, hus⟩ := h.exists_cons
    have ht' : t.lexeme = .mark .openBrace := ht
    exact ⟨_, h, declaredWidth_cons (by simp [ht']) (by simp [ht']) us⟩
  | some parts =>
    rw [hbase] at h
    obtain ⟨t, us, rfl, ht, hus⟩ := h.exists_cons
    obtain ⟨rest, hrest, hwidth⟩ := baseWidth_of_renders parts 32 hus
    exact ⟨rest, hrest, (declaredWidth_cons_colon ht us).trans hwidth⟩

/-! ### Declarations -/

/-- A member takes 64 bits if its value does. -/
theorem needs64_member (e : Enumerator) : needs64 e.member = e.value.isWide := by
  unfold needs64 Enumerator.member
  cases e.value with
  | constant e =>
    cases hv : e.value? with
    | none => simp [Value.initializer, Value.isWide, hv]
    | some v => simp [Value.initializer, Value.isWide, hv, Bool.or_comm]
  | _ => rfl

/-- The group of a name, a width and members is what the declaration stands for. -/
theorem groupOf_members (d : Declaration) (name : String) :
    groupOf name d.declaredWidth (d.enumerators.map Enumerator.member) = d.groupNamed name := by
  have hkind : (Text.contains Naming.flagBits name.toList = true) =
      ("FlagBits".toList <:+: name.toList) := propext contains_iff
  have hwide : (d.enumerators.map Enumerator.member).any needs64 =
      d.enumerators.any (·.value.isWide) := by
    rw [List.any_map]
    exact congrArg d.enumerators.any (funext needs64_member)
  rw [groupOf, Declaration.groupNamed, hwide]
  simp only [hkind]

/-- What a declaration adds to a schema. -/
def added (g : Option Group) (s : Schema) : Schema :=
  g.toList.foldl Schema.addGroup s

/-- A declaration without a name adds nothing. -/
theorem addTo_itemOf (d : Declaration) (s : Schema) :
    Item.addTo s (itemOf ((d.tag.map Word.text) <|> (d.behind.map Word.text)) d.declaredWidth
      (d.enumerators.map Enumerator.member)) = added d.group? s := by
  unfold Declaration.group?
  cases d.tag with
  | some w => simp [itemOf, groupOf_members, Item.addTo, added]
  | none =>
    cases d.behind with
    | some w => simp [itemOf, groupOf_members, Item.addTo, added]
    | none => rfl

/-- **A declaration is read as the group that it stands for.** -/
theorem enumeration_of_renders (d : Declaration) (h : Renders (d.enumAtoms ++ bs) ts) (last : Nat) :
    ∃ key us item rest, ts = key :: us ∧ key.lexeme = .word "enum" ∧
      Renders (.mark .semicolon :: bs) rest ∧ enumeration last us = .ok (item, rest) ∧
      ∀ s, Item.addTo s item = added d.group? s := by
  simp only [Declaration.enumAtoms, List.cons_append, List.append_assoc, List.nil_append] at h
  obtain ⟨key, us, rfl, hkey, hus⟩ := h.exists_cons
  -- What stands behind the tag is a colon or a brace.
  obtain ⟨p, cs, hbase⟩ : ∃ p cs, Declaration.baseAtoms d.base ++ .mark .openBrace ::
      (Declaration.bodyAtoms d.enumerators d.trailingComma ++ .mark .closeBrace ::
        (d.behind.toList.map .word ++ .mark .semicolon :: bs)) = .mark p :: cs := by
    cases d.base <;> exact ⟨_, _, rfl⟩
  have htag := afterScope_of_renders d (hbase ▸ hus)
  obtain ⟨front, hfront, htag⟩ := optionalWord_of_renders d.tag htag
  obtain ⟨body, hbody, hwidth⟩ := declaredWidth_of_renders d (hbase.symm ▸ hfront)
  obtain ⟨opening, inner, rfl, hopening, hinner⟩ := hbody.exists_cons
  have hopening' : opening.lexeme = .mark .openBrace := hopening
  obtain ⟨after, hafter, hmembers⟩ := members_of_renders d.enumerators d.trailingComma hinner last
  obtain ⟨rest, hrest, hbehind⟩ := optionalWord_of_renders d.behind hafter
  have hnext : next? (declaredWidth (optionalWord (afterScope us)).2).2 =
      some (opening, inner) := by
    rw [htag, hwidth]
    exact next?_cons (by simp [hopening']) inner
  refine ⟨key, us, _, rest, rfl, hkey, hrest, ?_, addTo_itemOf d⟩
  rw [enumeration_of_next? hnext, if_pos hopening', hmembers, htag]
  simp only [Except.map, hwidth, hbehind]

/-! ### Mentions and other parts -/

/-- Tokens that are words. -/
def AreWords (us : List Token) : Prop :=
  ∀ u ∈ us, ∃ name, u.lexeme = .word name

theorem AreWords.of_suffix {vs : List Token} (h : AreWords us) (hs : vs <:+ us) : AreWords vs :=
  fun v hv => h v (hs.mem hv)

/-- Of words in front of a semicolon one is taken, if there is any. -/
theorem exists_optionalWord (h : AreWords us) (ht : t.lexeme = .mark .semicolon) (ts : List Token) :
    ∃ vs, vs <:+ us ∧ (optionalWord (us ++ t :: ts)).2 = vs ++ t :: ts := by
  cases us with
  | nil =>
    exact ⟨[], List.nil_suffix, by
      rw [List.nil_append, optionalWord_cons_of_ne (by simp [ht]) (by simp [ht])]⟩
  | cons u us =>
    obtain ⟨name, hu⟩ := h u List.mem_cons_self
    exact ⟨us, List.suffix_cons u us, by rw [List.cons_append, optionalWord_cons hu]⟩

/-- Of words in front of a semicolon the one that makes a scope is passed over. -/
theorem exists_afterScope (h : AreWords us) (ht : t.lexeme = .mark .semicolon) (ts : List Token) :
    ∃ vs, vs <:+ us ∧ afterScope (us ++ t :: ts) = vs ++ t :: ts := by
  cases us with
  | nil =>
    exact ⟨[], List.nil_suffix, by
      rw [List.nil_append, afterScope_cons_of_ne (by simp [ht]) (by simp [ht])]⟩
  | cons u us =>
    obtain ⟨name, hu⟩ := h u List.mem_cons_self
    by_cases hname : name = "class" ∨ name = "struct"
    · exact ⟨us, List.suffix_cons u us, by rw [List.cons_append, afterScope_cons_scope hu hname]⟩
    · exact ⟨u :: us, List.suffix_refl _, by rw [List.cons_append, afterScope_cons hu hname]⟩

/-- What stands in front of a semicolon, behind words or right there, opens no body. -/
theorem exists_next?_words (h : AreWords us) (ht : t.lexeme = .mark .semicolon) (ts : List Token) :
    ∃ u rest, next? (us ++ t :: ts) = some (u, rest) ∧ u.lexeme ≠ .mark .colon ∧
      u.lexeme ≠ .mark .openBrace := by
  cases us with
  | nil => exact ⟨t, ts, next?_cons (by simp [ht]) ts, by simp [ht], by simp [ht]⟩
  | cons u us =>
    obtain ⟨name, hu⟩ := h u List.mem_cons_self
    exact ⟨u, us ++ t :: ts, next?_cons (by simp [hu]) _, by simp [hu], by simp [hu]⟩

/-- Behind the keyword, words in front of a semicolon are a mention, and what is left of them are
words. -/
theorem enumeration_of_words (h : AreWords us) (ht : t.lexeme = .mark .semicolon) (last : Nat)
    (ts : List Token) :
    ∃ tag line vs, vs <:+ us ∧
      enumeration last (us ++ t :: ts) = .ok (.bodiless tag line, vs ++ t :: ts) := by
  obtain ⟨ws, hws, hscope⟩ := exists_afterScope h ht ts
  obtain ⟨vs, hvs, htag⟩ := exists_optionalWord (h.of_suffix hws) ht ts
  obtain ⟨u, rest, hnext, hcolon, hopen⟩ :=
    exists_next?_words (h.of_suffix (hvs.trans hws)) ht ts
  have hwidth : declaredWidth (optionalWord (afterScope (us ++ t :: ts))).2 =
      (32, vs ++ t :: ts) := by
    rw [hscope, htag, declaredWidth_of_next? hnext, if_neg hcolon]
  have hbody : next? (declaredWidth (optionalWord (afterScope (us ++ t :: ts))).2).2 =
      some (u, rest) := by
    rw [hwidth]
    exact hnext
  have hmention := enumeration_of_next? hbody last
  rw [if_neg hopen, hwidth] at hmention
  exact ⟨_, _, vs, hvs.trans hws, hmention⟩

/-- Words in front of a semicolon declare nothing, keywords included. -/
theorem result_readTokens_words (h : AreWords us) (ht : t.lexeme = .mark .semicolon)
    (last depth : Nat) (ts : List Token) (s : Schema) :
    (readTokens last depth (us ++ t :: ts)).result s = (readTokens last depth ts).result s := by
  -- A keyword takes some of the words behind it along, so the induction is on their number.
  induction hn : us.length using Nat.strong_induction_on generalizing us with
  | _ n ih =>
    cases us with
    | nil =>
      rw [List.nil_append, readTokens_cons (by simp [ht]) (by simp [ht]) (by simp [ht])]
    | cons u us =>
      obtain ⟨name, hu⟩ := h u List.mem_cons_self
      have hus : AreWords us := h.of_suffix (List.suffix_cons u us)
      rw [List.length_cons] at hn
      by_cases hname : name = "enum"
      · obtain ⟨tag, line, vs, hvs, hmention⟩ := enumeration_of_words hus ht last ts
        have hlength := hvs.length_le
        rw [List.cons_append, readTokens_cons_enum (hname ▸ hu), hmention]
        exact ih vs.length (by omega) (hus.of_suffix hvs) rfl
      · rw [List.cons_append, readTokens_cons (by simp [hu]) (by simp [hu]) (by simp [hu, hname])]
        exact ih us.length (by omega) hus rfl

/-- The braces of some lexemes lead from one number of open ones to another, and never close more
than is open. -/
structure BracesLead (d d' : Nat) (ls : List Lexeme) : Prop where
  count_le : ∀ front, front <+: ls →
    front.count (.mark .closeBrace) ≤ d + front.count (.mark .openBrace)
  count_eq : d' + ls.count (.mark .closeBrace) = d + ls.count (.mark .openBrace)

/-- Braces lead on from behind the first token. -/
theorem BracesLead.tail {d d₁ d' : Nat} {l : Lexeme} {ls : List Lexeme}
    (h : BracesLead d d' (l :: ls))
    (hd : d₁ + [l].count (.mark .closeBrace) = d + [l].count (.mark .openBrace)) :
    BracesLead d₁ d' ls := by
  have hcons : ∀ (m : Lexeme) (front : List Lexeme),
      (l :: front).count m = [l].count m + front.count m := by
    intro m front
    rw [← List.count_append, List.singleton_append]
  refine ⟨fun front hfront => ?_, ?_⟩
  · have hle := h.count_le (l :: front) (List.cons_prefix_cons.mpr ⟨rfl, hfront⟩)
    rw [hcons _ front, hcons _ front] at hle
    omega
  · have heq := h.count_eq
    rw [hcons _ ls, hcons _ ls] at heq
    omega

/-- Braces that lead somewhere are counted to the end, as long as nothing is declared. -/
theorem BracesLead.depthBehind?_eq {d d' : Nat} {ls : List Lexeme} (h : BracesLead d d' ls)
    (hword : .word "enum" ∉ ls) : depthBehind? d ls = some d' := by
  fun_induction depthBehind? d ls with
  | case1 d => simpa using h.count_eq.symm
  | case2 d ls ih => exact ih (h.tail (by simp)) (List.not_mem_of_not_mem_cons hword)
  | case3 ls =>
    have hle := h.count_le [.mark .closeBrace] (List.cons_prefix_cons.mpr ⟨rfl, List.nil_prefix⟩)
    simp at hle
  | case4 ls d ih => exact ih (h.tail (by simp)) (List.not_mem_of_not_mem_cons hword)
  | case5 d name ls hname => exact absurd (hname.1 ▸ List.mem_cons_self) hword
  | case6 d name ls hname ih => exact ih (h.tail (by simp)) (List.not_mem_of_not_mem_cons hword)
  | case7 d l ls hopen hclose hword' ih =>
    refine ih (h.tail ?_) (List.not_mem_of_not_mem_cons hword)
    rw [List.count_singleton, List.count_singleton, if_neg (by simpa using hclose),
      if_neg (by simpa using hopen)]

/-! ### Headers -/

theorem readTokens_cons_semicolon (ht : t.lexeme = .mark .semicolon) (last depth : Nat)
    (ts : List Token) : readTokens last depth (t :: ts) = readTokens last depth ts :=
  readTokens_cons (by simp [ht]) (by simp [ht]) (by simp [ht]) last depth ts

/-- The keyword in front of a declaration changes nothing. -/
theorem exists_readTokens_eq_enumAtoms (d : Declaration) (h : Renders (d.atoms ++ bs) ts)
    (last : Nat) :
    ∃ us, Renders (d.enumAtoms ++ bs) us ∧ readTokens last 0 ts = readTokens last 0 us := by
  rw [Declaration.atoms, List.append_assoc] at h
  cases htypedef : d.typedef with
  | true =>
    rw [htypedef] at h
    obtain ⟨t, us, rfl, ht, hus⟩ := h.exists_cons
    have ht' : t.lexeme = .word "typedef" := ht
    exact ⟨us, hus, readTokens_cons (by simp [ht']) (by simp [ht']) (by simp [ht']) _ _ _⟩
  | false =>
    rw [htypedef] at h
    exact ⟨ts, h, rfl⟩

/-- A declaration adds its group. -/
theorem result_readTokens_declaration (d : Declaration)
    (h : Renders (d.atoms ++ bs) ts) (last : Nat) :
    ∃ rest, Renders bs rest ∧ ∀ s,
      (readTokens last 0 ts).result s = (readTokens last 0 rest).result (added d.group? s) := by
  obtain ⟨us, hus, htypedef⟩ := exists_readTokens_eq_enumAtoms d h last
  obtain ⟨key, vs, item, ws, rfl, hkey, hws, hitem, hadded⟩ := enumeration_of_renders d hus last
  -- The reader of the declaration stops in front of the semicolon.
  obtain ⟨semicolon, rest, rfl, hsemicolon, hrest⟩ := hws.exists_cons
  refine ⟨rest, hrest, fun s => ?_⟩
  rw [htypedef, readTokens_cons_enum hkey, hitem, Reading.result_cons, hadded,
    readTokens_cons_semicolon hsemicolon]

/-- **A part is read as what it declares.** -/
theorem result_readTokens_part (p : Part) (h : Renders (p.atoms ++ bs) ts) (last : Nat) :
    ∃ rest, Renders bs rest ∧ ∀ s,
      (readTokens last 0 ts).result s = (readTokens last 0 rest).result (added p.group? s) := by
  cases p with
  | declaration d => exact result_readTokens_declaration d h last
  | mention tag more =>
    rw [Part.atoms, List.append_assoc] at h
    obtain ⟨us, vs, rfl, hus, hvs⟩ := h.append
    obtain ⟨semicolon, rest, rfl, hsemicolon, hrest⟩ := hvs.exists_cons
    have hwords : AreWords us := by
      intro u hu
      have hmem : u.lexeme ∈ ((Word.enum :: tag :: more).map Atom.word).map Atom.lexeme :=
        hus.map_lexeme ▸ List.mem_map_of_mem hu
      rw [List.map_map] at hmem
      obtain ⟨w, -, hw⟩ := List.mem_map.mp hmem
      exact ⟨w.text, hw.symm⟩
    exact ⟨rest, hrest, fun s => result_readTokens_words hwords hsemicolon last 0 rest s⟩
  -- Nothing in here is the word for an enumeration, so only braces count, and those are balanced.
  | other as hword hbraces =>
    rw [Part.atoms, List.append_assoc] at h
    obtain ⟨us, vs, rfl, hus, hvs⟩ := h.append
    obtain ⟨semicolon, rest, rfl, hsemicolon, hrest⟩ := hvs.exists_cons
    have hdepth : depthBehind? 0 (us.map Token.lexeme) = some 0 := by
      have hlead : BracesLead 0 0 (as.map Atom.lexeme) :=
        ⟨by simpa using hbraces.count_le, by simpa using hbraces.count_eq⟩
      rw [hus.map_lexeme]
      refine hlead.depthBehind?_eq fun hmem => ?_
      obtain ⟨a, ha, hword'⟩ := List.mem_map.mp hmem
      exact hword a ha hword'
    refine ⟨rest, hrest, fun s => ?_⟩
    rw [result_readTokens_append hdepth, readTokens_cons_semicolon hsemicolon]
    rfl

/-- Parts one after another are read one after another. -/
theorem result_readTokens_parts (parts : List Part) (h : Renders (parts.flatMap Part.atoms) ts)
    (last : Nat) (s : Schema) :
    (readTokens last 0 ts).result s =
      .ok ((parts.filterMap Part.group?).foldl Schema.addGroup s) := by
  induction parts generalizing ts s with
  | nil =>
    obtain rfl := h.eq_nil
    rw [readTokens_nil]
    rfl
  | cons p parts ih =>
    obtain ⟨rest, hrest, hpart⟩ := result_readTokens_part p h last
    rw [hpart, ih hrest]
    cases hp : p.group? with
    | none => rw [List.filterMap_cons_none hp]; rfl
    | some g => rw [List.filterMap_cons_some hp]; rfl

/-- **Reading a header inverts printing it.** -/
theorem parse_layout {parts : List Part} (l : Layout (parts.flatMap Part.atoms)) :
    parse l.text = .ok (schema parts) := by
  have hread : parse l.text = .ok ((parts.filterMap Part.group?).foldl Schema.addGroup {}) := by
    rw [parse_eq_result, read]
    exact result_readTokens_parts parts l.renders _ {}
  have hnodup : (({} : Schema).groups.map Group.name).Nodup := List.nodup_nil
  rw [hread, Schema.foldl_addGroup hnodup]
  rfl

/-- The sum `0x10u + 1`. -/
def tideSum : Constant 4 :=
  .binary .add
    (.lower (n := 4) (by decide) (.lower (n := 5) (by decide)
      (.number ⟨"0x10u", rfl, List.all_eq_true.mp rfl⟩)))
    (.lower (n := 5) (by decide) (.number ⟨"1", rfl, List.all_eq_true.mp rfl⟩))

/-- A scoped enumeration with a qualified base type of eight bits. -/
def tideDeclaration : Declaration where
  typedef := false
  scope := some ⟨"class", by decide +kernel⟩
  tag := some ⟨"Tide", by decide +kernel⟩
  base := some [.word ⟨"std", by decide +kernel⟩, .colon, .colon,
    .word ⟨"uint8_t", by decide +kernel⟩]
  enumerators :=
    [⟨⟨"TIDE_LOW", by decide +kernel⟩, .implicit⟩,
      ⟨⟨"TIDE_HIGH", by decide +kernel⟩, .constant (.lower (by decide) (.lower (by decide)
        (.lower (by decide) (.lower (by decide) tideSum))))⟩]
  trailingComma := true
  behind := none
  isScope := by simp [Word.isScope]
  not_isScope := by simp [Word.isScope]

/-- The base type gives the width, and the sum is taken with its text. -/
theorem parse_layout_tideDeclaration :
    parse "enum class Tide : std : : uint8_t { TIDE_LOW , TIDE_HIGH = 0x10u + 1 , } ; " =
      .ok { groups := [⟨"Tide", .plain, 8,
        [⟨"TIDE_LOW", .implicit, none⟩, ⟨"TIDE_HIGH", .literal 17 "0x10u + 1", none⟩]⟩] } := by
  let l : Layout ([.declaration tideDeclaration].flatMap Part.atoms) := default
  have htext : l.text =
      "enum class Tide : std : : uint8_t { TIDE_LOW , TIDE_HIGH = 0x10u + 1 , } ; " := by
    decide +kernel
  rw [← htext]
  exact (parse_layout l).trans rfl

end Enumerant.Header.Abstract
