import Enumerant.Proofs.Header.LiteralText
import Enumerant.Proofs.Header.Placement

/-!
# Taking the text of an initializer

The text of an initializer is cut out of the header by positions in bytes, from the start of its
first token to the end of its last. A character with no meaning gives one token for each of its
bytes, so positions of tokens may lie within characters; the ends of an initializer never do.

`ComesTo` says which initializers are met while a header is read, whether or not the reading goes
well in the end, and `isSlice_of_comesTo` that the positions of each one are in order, within the
text and between its characters, so that its bytes are a text again.
-/

namespace Enumerant.Header

open Text

variable {text : String} {last depth : Nat} {ts us rest : List Token} {first : Token}
  {more : List Token} {m : Member}

/-! ### What reading comes to -/

/-- Reading the members of a body comes to an initializer, which begins the second tokens. -/
inductive MembersComeTo (last : Nat) : List Token → List Token → Prop
  | value {ts rest us : List Token} {t equals : Token} {name : String}
      (hnext : next? ts = some (t, rest)) (hword : t.lexeme = .word name)
      (hequals : next? rest = some (equals, us)) (hassign : equals.lexeme = .mark .assign) :
      MembersComeTo last ts us
  | comma {ts rest us : List Token} {t : Token} (hnext : next? ts = some (t, rest))
      (hcomma : t.lexeme = .mark .comma) (h : MembersComeTo last rest us) :
      MembersComeTo last ts us
  | member {ts rest behind us : List Token} {t : Token} {name : String} {m : Member}
      (hnext : next? ts = some (t, rest)) (hword : t.lexeme = .word name)
      (hmember : member last name t.line rest = .ok (m, behind))
      (h : MembersComeTo last behind us) : MembersComeTo last ts us

/-- Reading tokens within a number of open braces comes to an initializer, which begins the second
tokens. -/
inductive ReadingComesTo (last : Nat) : Nat → List Token → List Token → Prop
  | openBrace {depth : Nat} {ts rest us : List Token} {t : Token}
      (hnext : next? ts = some (t, rest)) (hopen : t.lexeme = .mark .openBrace)
      (h : ReadingComesTo last (depth + 1) rest us) : ReadingComesTo last depth ts us
  | closeBrace {depth : Nat} {ts rest us : List Token} {t : Token}
      (hnext : next? ts = some (t, rest)) (hclose : t.lexeme = .mark .closeBrace)
      (h : ReadingComesTo last depth rest us) : ReadingComesTo last (depth + 1) ts us
  | body {depth : Nat} {ts rest body us : List Token} {t u : Token}
      (hnext : next? ts = some (t, rest)) (hkey : t.lexeme = .word "enum")
      (hbody : next? (declaredWidth (optionalWord (afterScope rest)).2).2 = some (u, body))
      (hopen : u.lexeme = .mark .openBrace) (h : MembersComeTo last body us) :
      ReadingComesTo last depth ts us
  | behind {depth : Nat} {ts rest behind us : List Token} {t : Token} {item : Item}
      (hnext : next? ts = some (t, rest)) (hkey : t.lexeme = .word "enum")
      (hitem : enumeration last rest = .ok (item, behind))
      (h : ReadingComesTo last depth behind us) : ReadingComesTo last depth ts us
  | other {depth : Nat} {ts rest us : List Token} {t : Token} (hnext : next? ts = some (t, rest))
      (hopen : t.lexeme ≠ .mark .openBrace) (hclose : t.lexeme ≠ .mark .closeBrace)
      (hkey : t.lexeme ≠ .word "enum") (h : ReadingComesTo last depth rest us) :
      ReadingComesTo last depth ts us

/-- Reading a header comes to an initializer, which begins the tokens. -/
def ComesTo (text : String) (us : List Token) : Prop :=
  ReadingComesTo (((tokens text.toList).getLast?.map Token.line).getD 1) 0 (tokens text.toList) us

/-! ### Initializers stand behind equals signs -/

/-- The tokens stand behind an equals sign among others. -/
def BehindAssign (ts us : List Token) : Prop :=
  ∃ equals, equals :: us <:+ ts ∧ equals.lexeme = .mark .assign

theorem BehindAssign.of_suffix (h : BehindAssign rest us) (hs : rest <:+ ts) :
    BehindAssign ts us := by
  obtain ⟨equals, hsuffix, hassign⟩ := h
  exact ⟨equals, hsuffix.trans hs, hassign⟩

theorem MembersComeTo.behindAssign (h : MembersComeTo last ts us) : BehindAssign ts us := by
  induction h with
  | value hnext _ hequals hassign =>
    exact ⟨_, (next?_suffix hequals).trans (suffix_of_next? hnext), hassign⟩
  | comma hnext _ _ ih => exact ih.of_suffix (suffix_of_next? hnext)
  | member hnext _ hmember _ ih =>
    exact ih.of_suffix ((member_suffix hmember).trans (suffix_of_next? hnext))

theorem ReadingComesTo.behindAssign (h : ReadingComesTo last depth ts us) : BehindAssign ts us := by
  induction h with
  | openBrace hnext _ _ ih => exact ih.of_suffix (suffix_of_next? hnext)
  | closeBrace hnext _ _ ih => exact ih.of_suffix (suffix_of_next? hnext)
  | body hnext _ hbody _ h =>
    exact h.behindAssign.of_suffix
      ((suffix_of_next? hbody).trans ((body_suffix _).trans (suffix_of_next? hnext)))
  | behind hnext _ hitem _ ih =>
    exact ih.of_suffix ((enumeration_suffix hitem).trans (suffix_of_next? hnext))
  | other hnext _ _ _ _ ih => exact ih.of_suffix (suffix_of_next? hnext)

/-! ### Values come from what reading comes to -/

/-- The value of a member is classified from an initializer that the tokens begin with. -/
def Yields (last : Nat) (us : List Token) (value : Initializer) : Prop :=
  ∃ first more rest, initializerTokens last 0 us = .ok (first :: more, rest) ∧
    value = classify first more

theorem exists_membersComeTo {ms : List Member} (h : members last ts = .ok (ms, rest))
    (hm : m ∈ ms) (hvalue : m.value ≠ .implicit) :
    ∃ us, MembersComeTo last ts us ∧ Yields last us m.value := by
  fun_induction members last ts generalizing ms rest with
  | case1 => cases h
  | case2 => cases h; exact absurd hm List.not_mem_nil
  | case3 _ _ _ hnext hcomma ih =>
    obtain ⟨us, hus, hyields⟩ := ih h hm
    exact ⟨us, .comma hnext hcomma hus, hyields⟩
  | case4 => cases h
  | case5 ts t behind hnext name hword n after hn ns rest hns ih =>
    cases h
    rcases List.mem_cons.mp hm with rfl | hm
    · obtain ⟨-, after', hinit⟩ := memberValue_of_member hn
      rcases memberValue_eq_ok hinit with ⟨equals, us, hequals, hassign, hinit⟩ | ⟨himplicit, -⟩
      · obtain ⟨first, more, hexpr, hclass⟩ := exists_of_initializer hinit
        exact ⟨us, .value hnext hword hequals hassign, first, more, after', hexpr, hclass⟩
      · exact absurd himplicit hvalue
    · obtain ⟨us, hus, hyields⟩ := ih hns hm
      exact ⟨us, .member hnext hword hn hus, hyields⟩
  | case6 => cases h
  | case7 => cases h

theorem exists_readingComesTo {g : Group} (hg : .group g ∈ (readTokens last depth ts).items)
    (hm : m ∈ g.members) (hvalue : m.value ≠ .implicit) :
    ∃ us, ReadingComesTo last depth ts us ∧ Yields last us m.value := by
  -- Where reading goes on with the tokens behind, so does the way to the initializer; only the
  -- seventh case is an enumeration, whose members may be the ones that are looked for.
  fun_induction readTokens last depth ts with
  | case1 => exact absurd hg List.not_mem_nil
  | case2 => exact absurd hg List.not_mem_nil
  | case3 _ _ _ _ hnext hopen ih =>
    obtain ⟨us, hus, hyields⟩ := ih hg
    exact ⟨us, .openBrace hnext hopen hus, hyields⟩
  | case4 => exact absurd hg List.not_mem_nil
  | case5 _ _ _ hnext hclose _ ih =>
    obtain ⟨us, hus, hyields⟩ := ih hg
    exact ⟨us, .closeBrace hnext hclose hus, hyields⟩
  | case6 => exact absurd hg List.not_mem_nil
  | case7 _ _ t behind hnext item rest he hkey ih =>
    rcases List.mem_cons.mp hg with rfl | hg
    · obtain ⟨u, body, after, name, ms, hbody, hopen, hms, rfl⟩ := enumeration_group he
      obtain ⟨us, hus, hyields⟩ := exists_membersComeTo hms hm hvalue
      exact ⟨us, .body hnext hkey hbody hopen hus, hyields⟩
    · obtain ⟨us, hus, hyields⟩ := ih hg
      exact ⟨us, .behind hnext hkey he hus, hyields⟩
  | case8 _ _ _ _ hnext name hword hne ih =>
    obtain ⟨us, hus, hyields⟩ := ih hg
    exact ⟨us, .other hnext (by simp [hword]) (by simp [hword]) (by simpa [hword] using hne) hus,
      hyields⟩
  | case9 _ _ _ _ hnext hopen hclose hword ih =>
    obtain ⟨us, hus, hyields⟩ := ih hg
    exact ⟨us, .other hnext hopen hclose (hword _) hus, hyields⟩

/-- Every value in a header is that of an initializer which reading comes to. -/
theorem exists_comesTo {s : Schema} (hparse : parse text = .ok s) {g : Group} (hg : g ∈ s.groups)
    (hm : m ∈ g.members) (hvalue : m.value ≠ .implicit) :
    ∃ us, ComesTo text us ∧
      Yields (((tokens text.toList).getLast?.map Token.line).getD 1) us m.value := by
  rw [eq_schemaOf_of_parse hparse] at hg
  obtain ⟨first, later, hdecl, rfl⟩ := (collects_schemaOf _).declared g hg
  obtain ⟨d, hd, hm⟩ := List.mem_flatMap.mp hm
  rw [← hdecl] at hd
  exact exists_readingComesTo (mem_declarations.mp hd).1 hm hvalue

/-! ### Slices -/

/-- Two positions in bytes that a text can be cut at, one not behind the other: both are within the
text, and neither lies within a character. -/
structure IsSlice (text : String) (start stop : Nat) : Prop where
  start_le_stop : start ≤ stop
  start_isValid : (⟨start⟩ : String.Pos.Raw).IsValid text
  stop_isValid : (⟨stop⟩ : String.Pos.Raw).IsValid text

theorem isValid_byteLength {as bs : List Char} (h : text.toList = as ++ bs) :
    (⟨byteLength as⟩ : String.Pos.Raw).IsValid text := by
  refine String.Pos.Raw.isValid_iff_exists_append.mpr ⟨String.ofList as, String.ofList bs, ?_, ?_⟩
  · rw [← String.ofList_append, ← h, String.ofList_toList]
  · rw [← length_flatMap_utf8EncodeChar, ← bytes_ofList]
    rfl

/-- A part of a text is a slice of it. -/
theorem isSlice_of_append {as bs cs : List Char} (h : text.toList = as ++ (bs ++ cs)) :
    IsSlice text (byteLength as) (byteLength as + byteLength bs) where
  start_le_stop := Nat.le_add_right _ _
  start_isValid := isValid_byteLength h
  stop_isValid := by
    rw [← byteLength_append]
    exact isValid_byteLength (h.trans (List.append_assoc as bs cs).symm)

theorem extract_bytes {as bs cs : List Char} (h : text.toList = as ++ (bs ++ cs)) :
    (bytes text).extract (byteLength as) (byteLength as + byteLength bs) =
      bytes (String.ofList bs) := by
  rw [bytes_eq_flatMap, h, List.flatMap_append, List.flatMap_append,
    ← length_flatMap_utf8EncodeChar as, ← length_flatMap_utf8EncodeChar bs,
    List.extract_eq_take_drop, Nat.add_sub_cancel_left, List.drop_left, List.take_left,
    bytes_ofList]

/-- **The text of an initializer can always be taken**: it starts and stops between characters, and
its bytes are those in between. Where the header is read well, every value comes from an initializer
that reading comes to. -/
theorem isSlice_of_comesTo (text : String) :
    (∀ us, ComesTo text us → ∀ last first more rest,
      initializerTokens last 0 us = .ok (first :: more, rest) →
        IsSlice text first.start (more.getLastD first).stop ∧
          ∃ cs, textBetween? first (more.getLastD first) = some cs ∧
            bytes (String.ofList cs) =
              (bytes text).extract first.start (more.getLastD first).stop) ∧
    ∀ s, parse text = .ok s → ∀ g ∈ s.groups, ∀ m ∈ g.members, m.value ≠ .implicit →
      ∃ us, ComesTo text us ∧
        Yields (((tokens text.toList).getLast?.map Token.line).getD 1) us m.value := by
  refine ⟨?_, fun s hparse g hg m hm hvalue => exists_comesTo hparse hg hm hvalue⟩
  intro us h last first more rest hexpr
  obtain ⟨equals, hsuffix, hassign⟩ := h.behindAssign
  obtain ⟨stop, -, front, back, line, ps, -, htext, -, -, hfilter⟩ :=
    exists_pieces_of_initializer hsuffix hassign hexpr
  obtain ⟨before, after, hps, hstart, hstop, hbetween⟩ := exists_core_of_located hfilter
  -- The pieces in front of the first solid one and behind the last are no part of the slice.
  have hparts : text.toList = (front ++ before.flatMap Piece.text) ++
      ((core ps).flatMap Piece.text ++ (after.flatMap Piece.text ++ back)) := by
    rw [htext]
    conv_lhs => rw [hps]
    simp [List.flatMap_append]
  rw [← byteLength_append] at hstart
  rw [hstart] at hstop
  refine ⟨?_, _, hbetween, ?_⟩
  · rw [hstart, hstop]
    exact isSlice_of_append hparts
  · rw [hstart, hstop, extract_bytes hparts]

/-- An initializer of characters with two bytes each, one of them escaped in a quoted text. -/
def accentedInitializer : String :=
  "enum E \x7b A = é + \x27\\ß\x27 + ö, B \x7d;"

theorem comesTo_accentedInitializer :
    ComesTo accentedInitializer (tokensFrom accentedInitializer 5) := by
  let token := tokenAt accentedInitializer
  let tokensFrom := tokensFrom accentedInitializer
  refine @ReadingComesTo.body _ _ _ (tokensFrom 1) (tokensFrom 3) _ (token 0) (token 2)
    (by decide +kernel) (by decide +kernel) (by decide +kernel) (by decide +kernel) ?_
  exact @MembersComeTo.value _ _ (tokensFrom 4) _ (token 3) (token 4) "A" (by decide +kernel)
    (by decide +kernel) (by decide +kernel) (by decide +kernel)

theorem initializerTokens_accentedInitializer :
    ∃ first more rest,
      initializerTokens 1 0 (tokensFrom accentedInitializer 5) = .ok (first :: more, rest) ∧
        first.start = 13 ∧ (more.getLastD first).stop = 28 :=
  ⟨tokenAt accentedInitializer 5, (tokensFrom accentedInitializer 6).take 5,
    tokensFrom accentedInitializer 11, by decide +kernel, by decide +kernel, by decide +kernel⟩

/-- The slice goes from the first character to the last one, with the two bytes of each. -/
theorem isSlice_accentedInitializer :
    ∃ us first more rest, ComesTo accentedInitializer us ∧
      initializerTokens 1 0 us = .ok (first :: more, rest) ∧
      IsSlice accentedInitializer 13 28 := by
  obtain ⟨first, more, rest, hexpr, hstart, hstop⟩ := initializerTokens_accentedInitializer
  have hslice := ((isSlice_of_comesTo accentedInitializer).1 _ comesTo_accentedInitializer
    _ _ _ _ hexpr).1
  rw [hstart, hstop] at hslice
  exact ⟨_, first, more, rest, comesTo_accentedInitializer, hexpr, hslice⟩

end Enumerant.Header
