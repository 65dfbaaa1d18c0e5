import Enumerant.Proofs.Rendering.Functions

/-!
# Reading back declarations

A block of generated code holds one declaration among code that declares nothing, and reading it
gives one group: that of the name in its head with the members of its lines (`parse_of_parts`).
-/

namespace Enumerant

open Text Header

namespace Header

variable {last depth width : Nat} {name : String} {ts us after behind : List Token} {t u v : Token}
  {ms : List Member}

/-- An enumeration with a tag, a base type and a body. -/
theorem enumeration_of_body {storage : String} (ht : t.lexeme = .mark .colon)
    (hu : u.lexeme = .word storage) (hv : v.lexeme = .mark .openBrace)
    (htag : optionalWord (afterScope ts) = (some name, t :: u :: v :: us))
    (hms : members last us = .ok (ms, after)) :
    enumeration last ts =
      .ok (.group (groupOf name ((widthOfType? storage).getD 32) ms), (optionalWord after).2) := by
  have hwidth : declaredWidth (t :: u :: v :: us) = ((widthOfType? storage).getD 32, v :: us) := by
    rw [declaredWidth_cons_colon ht, baseWidth_cons_word hu, baseWidth_cons_open hv]
  obtain ⟨lexeme, line, start, stop, onward⟩ := v
  subst hv
  have hnext := @next?_cons ⟨.mark .openBrace, line, start, stop, onward⟩ (by simp) us
  unfold enumeration
  simp only [htag, hwidth, hnext, hms]
  rfl

end Header

namespace Rendering

/-! ### Heads -/

variable {l name storage : String}

/-- A line opens the body of an enumeration: reading goes on with its members. -/
def Opens (l name : String) : Prop :=
  ∀ rest, ∃ ps width, Piece.Divides (l ++ "\n") rest ps ∧
    ∀ ts last us ms after, ts.map Token.lexeme = ps.flatMap Piece.lexemes →
      members last us = .ok (ms, after) → ∀ depth,
        readTokens last depth (ts ++ us) =
          (readTokens last depth (optionalWord after).2).cons (.group (groupOf name width ms))

theorem isWord_enum : IsWord "enum".toList :=
  ⟨⟨'e', rfl, rfl⟩, List.all_eq_true.mp rfl⟩

theorem isWord_class : IsWord "class".toList :=
  ⟨⟨'c', rfl, rfl⟩, List.all_eq_true.mp rfl⟩

/-- The division of a head, given that of what stands in front of the tag. -/
theorem divides_head {front : String} {fs : List Piece} (hname : IsWord name.toList)
    (hstorage : IsWord storage.toList) (hfront : ∀ rest, Piece.Divides front rest fs)
    (rest : List Char) :
    Piece.Divides (front ++ name ++ " : " ++ storage ++ " \x7b" ++ "\n") rest
      (fs ++ ([⟨.token (.word name), name.toList⟩] ++
        ([⟨.blank, [' ']⟩, ⟨.token (.mark .colon), [':']⟩, ⟨.blank, [' ']⟩] ++
          ([⟨.token (.word storage), storage.toList⟩] ++
            [⟨.blank, [' ']⟩, ⟨.token (.mark .openBrace), ['\x7b']⟩, ⟨.blank, ['\n']⟩])))) := by
  have hcolon : ∀ rest, Piece.Divides " : " rest
      [⟨.blank, [' ']⟩, ⟨.token (.mark .colon), [':']⟩, ⟨.blank, [' ']⟩] := fun rest =>
    (Piece.Divides.space _).append
      ((Piece.Divides.mark (s := ":") (m := .colon) rfl (by decide) _).append (.space rest))
  have hbrace : Piece.Divides " \x7b\n" rest
      [⟨.blank, [' ']⟩, ⟨.token (.mark .openBrace), ['\x7b']⟩, ⟨.blank, ['\n']⟩] :=
    (Piece.Divides.space _).append
      ((Piece.Divides.mark (s := "\x7b") (m := .openBrace) rfl (by decide) _).append
        (divides_newline rest))
  have hline : front ++ name ++ " : " ++ storage ++ " \x7b" ++ "\n" =
      front ++ (name ++ (" : " ++ (storage ++ " \x7b\n"))) := by
    simp [← String.toList_inj]
  have hname' : Piece.Divides name ((" : " ++ (storage ++ " \x7b\n")).toList ++ rest)
      [⟨.token (.word name), name.toList⟩] := by
    refine .word hname ?_
    rw [String.toList_append]
    rintro d ⟨⟩
    rfl
  have hstorage' : Piece.Divides storage (" \x7b\n".toList ++ rest)
      [⟨.token (.word storage), storage.toList⟩] := by
    refine .word hstorage ?_
    rintro d ⟨⟩
    rfl
  rw [hline]
  exact (hfront _).append (hname'.append ((hcolon _).append (hstorage'.append hbrace)))

/-- The head of a declaration, given what stands in front of the tag. -/
theorem opens_of_front {front : String} {fs : List Piece} (hname : IsWord name.toList)
    (hstorage : IsWord storage.toList) (hfront : ∀ rest, Piece.Divides front rest fs)
    (htag : ∀ ts t rest, ts.map Token.lexeme = fs.flatMap Piece.lexemes →
      t.lexeme = .word name → ∃ u us, ts = u :: us ∧ u.lexeme = .word "enum" ∧
        optionalWord (afterScope (us ++ t :: rest)) = (some name, rest)) :
    Opens (front ++ name ++ " : " ++ storage ++ " \x7b") name := by
  intro rest
  refine ⟨_, (widthOfType? storage).getD 32, divides_head hname hstorage hfront rest, ?_⟩
  intro ts last us ms after hts hms depth
  rw [List.flatMap_append] at hts
  -- The tokens of the line are those in front of the tag, the tag, a colon, the storage type and
  -- a brace.
  obtain ⟨as, bs, rfl, has, hbs⟩ := List.map_eq_append_iff.mp hts
  obtain ⟨t, hcs, rfl, ht, hbs⟩ := List.map_eq_cons_iff.mp hbs
  obtain ⟨c, us', rfl, hc, hbs⟩ := List.map_eq_cons_iff.mp hbs
  obtain ⟨u, vs, rfl, hu, hbs⟩ := List.map_eq_cons_iff.mp hbs
  obtain ⟨v, ws, rfl, hv, hbs⟩ := List.map_eq_cons_iff.mp hbs
  obtain rfl := List.map_eq_nil_iff.mp hbs
  obtain ⟨keyword, more, rfl, hkeyword, hmore⟩ := htag as t (c :: u :: v :: us) has ht
  rw [List.append_assoc]
  simp only [List.cons_append, List.nil_append]
  rw [readTokens_cons_enum hkeyword, enumeration_of_body hc hu hv hmore hms]

theorem opens_scoped (hname : IsWord name.toList) (hstorage : IsWord storage.toList) :
    Opens ("enum class " ++ name ++ " : " ++ storage ++ " \x7b") name := by
  have hfront : ∀ rest, Piece.Divides "enum class " rest
      [⟨.token (.word "enum"), "enum".toList⟩, ⟨.blank, [' ']⟩,
        ⟨.token (.word "class"), "class".toList⟩, ⟨.blank, [' ']⟩] := fun rest =>
    (Piece.Divides.wordAndSpace isWord_enum _).append (.wordAndSpace isWord_class rest)
  refine opens_of_front hname hstorage hfront fun ts t rest hts ht => ?_
  obtain ⟨u, us, rfl, hu, hus⟩ := List.map_eq_cons_iff.mp hts
  obtain ⟨v, vs, rfl, hv, hvs⟩ := List.map_eq_cons_iff.mp hus
  obtain rfl := List.map_eq_nil_iff.mp hvs
  refine ⟨u, [v], rfl, hu, ?_⟩
  rw [List.singleton_append, afterScope_cons_scope hv (.inl rfl), optionalWord_cons ht]

theorem opens_plain (hname : IsWord name.toList) (hstorage : IsWord storage.toList)
    (hscope : ¬ (name = "class" ∨ name = "struct")) :
    Opens ("enum " ++ name ++ " : " ++ storage ++ " \x7b") name := by
  have hfront : ∀ rest, Piece.Divides "enum " rest
      [⟨.token (.word "enum"), "enum".toList⟩, ⟨.blank, [' ']⟩] :=
    .wordAndSpace isWord_enum
  refine opens_of_front hname hstorage hfront fun ts t rest hts ht => ?_
  obtain ⟨u, us, rfl, hu, hus⟩ := List.map_eq_cons_iff.mp hts
  obtain rfl := List.map_eq_nil_iff.mp hus
  refine ⟨u, [], rfl, hu, ?_⟩
  rw [List.nil_append, afterScope_cons ht hscope, optionalWord_cons ht]

/-! ### Blocks -/

theorem parse_of_tokens {text : String} {ts : List Token} {r : Except Fault Schema}
    (hts : tokens text.toList = ts) (h : ∀ last, (readTokens last 0 ts).result {} = r) :
    parse text = r := by
  subst hts
  exact h _

/-- The tokens of a declaration among others that declare nothing. -/
theorem result_readTokens_declaration {last width : Nat} {front head body behind : List Token}
    {close semicolon : Token} {ms : List Member}
    (hfront : depthBehind? 0 (front.map Token.lexeme) = some 0)
    (hhead : ∀ us ms after, members last us = .ok (ms, after) → ∀ depth,
      readTokens last depth (head ++ us) =
        (readTokens last depth (optionalWord after).2).cons (.group (groupOf name width ms)))
    (hbody : ∀ us, StartSolid us → ∀ ms' after, members last us = .ok (ms', after) →
      members last (body ++ us) = .ok (ms ++ ms', after))
    (hclose : close.lexeme = .mark .closeBrace) (hsemicolon : semicolon.lexeme = .mark .semicolon)
    (hbehind : depthBehind? 0 (behind.map Token.lexeme) = some 0) :
    (readTokens last 0 (front ++ (head ++ (body ++ close :: semicolon :: behind)))).result {} =
      .ok { groups := [groupOf name width ms] } := by
  have hsolid : StartSolid (close :: semicolon :: behind) := by
    rintro t ⟨⟩
    rw [hclose]
    rfl
  have hmembers := hbody _ hsolid _ _ (members_cons_close hclose last _)
  have hafter : (optionalWord (semicolon :: behind)).2 = semicolon :: behind := by
    rw [optionalWord_cons_of_ne (by simp [hsemicolon]) (by simp [hsemicolon])]
  have hrest : (readTokens last 0 behind).result (Item.addTo {} (.group (groupOf name width ms))) =
      .ok { groups := [groupOf name width ms] } := by
    have hpassed := result_readTokens_append hbehind last []
      (Item.addTo {} (.group (groupOf name width ms)))
    rw [List.append_nil, readTokens_nil] at hpassed
    exact hpassed
  rw [List.append_nil] at hmembers
  rw [result_readTokens_append hfront, hhead _ _ _ hmembers, Reading.result_cons, hafter,
    readTokens_cons (by simp [hsemicolon]) (by simp [hsemicolon]) (by simp [hsemicolon]), hrest]

/-- **A block with one declaration is read as one group**, its members being those of its lines. -/
theorem parse_of_parts {α : Type} {front behind : List String} {as : List α} {line : α → String}
    {back : α → Member} (hfront : Skipped 0 0 front) (hopens : Opens l name)
    (hmembers : ∀ a ∈ as, ReadsBack (line a) (back a)) (hbehind : Skipped 0 0 behind) :
    ∃ width, parse (textOf (front ++ l :: as.map line ++ ["\x7d;"] ++ behind)) =
      .ok { groups := [groupOf name width (as.map back)] } := by
  have hclose : ∀ rest, Piece.Divides ("\x7d;" ++ "\n") rest
      [⟨.token (.mark .closeBrace), ['\x7d']⟩, ⟨.token (.mark .semicolon), [';']⟩,
        ⟨.blank, ['\n']⟩] := fun rest =>
    (Piece.Divides.mark (s := "\x7d") (m := .closeBrace) rfl (by decide) _).append
      ((Piece.Divides.mark (s := ";") (m := .semicolon) rfl (by decide) _).append
        (divides_newline rest))
  obtain ⟨bs, hbs, hbdepth⟩ := hbehind []
  obtain ⟨ms, hms, hread⟩ :=
    exists_divides_members hmembers (("\x7d;" ++ "\n" ++ textOf behind).toList ++ [])
  obtain ⟨hs, width, hhs, hgroup⟩ := hopens _
  obtain ⟨fs, hfs, hfdepth⟩ := hfront _
  -- What stands behind each part is known by now, so that all of the block is divided.
  have hall := hfs.append (hhs.append (hms.append ((hclose _).append hbs)))
  have htext : textOf (front ++ l :: as.map line ++ ["\x7d;"] ++ behind) =
      textOf front ++
        (l ++ "\n" ++ (textOf (as.map line) ++ ("\x7d;" ++ "\n" ++ textOf behind))) := by
    simp only [textOf_append, textOf_cons, String.append_assoc]
    rfl
  have hsplit := hall true
  rw [List.append_nil, ← htext, Piece.split_nil, List.append_nil] at hsplit
  refine ⟨width, parse_of_tokens (tokens_eq_located _) fun last => ?_⟩
  rw [hsplit]
  simp only [located_append]
  refine result_readTokens_declaration (by rw [map_lexeme_located, hfdepth])
    (fun us ms' after h => hgroup _ last us ms' after (map_lexeme_located _ _ _ _) h)
    (fun us hus => (hread _ _ _ last us hus).2) rfl rfl
    ((congrArg (depthBehind? 0) (map_lexeme_located _ _ _ bs)).trans hbdepth)

end Rendering

end Enumerant
