import Enumerant.Proofs.Header.Form
import Enumerant.Proofs.Header.Position
import Enumerant.Proofs.Integer.Numeral
import Enumerant.Proofs.Naming.Characters

/-!
# Texts put together from chunks

Generated code is put together from chunks, and so are its pieces, as long as no piece goes on into
the next chunk. `Piece.Divides` says how a chunk is divided in front of what follows it, be the
line fresh or not. Words, numbers, quoted texts and comments have their own rules; a chunk without
gaps is divided by evaluation, and the only question is whether its last piece ends there
(`Piece.Divides.of_closed`, `Piece.Divides.of_open`).
-/

namespace Enumerant.Header

open Text

namespace Piece

variable {fresh : Bool} {p : Piece} {ps qs : List Piece} {s a b : String} {rest : List Char}

/-- A text is divided into some pieces, given what follows it. -/
def Divides (s : String) (rest : List Char) (ps : List Piece) : Prop :=
  ∀ fresh, split fresh (s.toList ++ rest) = ps ++ split (freshAfter fresh ps) rest

/-- The pieces of a chunk are all of it. -/
theorem Divides.flatMap_text (h : Divides s rest ps) : ps.flatMap Piece.text = s.toList := by
  have htext := flatMap_text_split true (s.toList ++ rest)
  rw [h true, List.flatMap_append, flatMap_text_split] at htext
  exact List.append_cancel_right htext

theorem Divides.nil (rest : List Char) : Divides "" rest [] :=
  fun _ => rfl

/-- Chunks are divided one after another. -/
theorem Divides.append (ha : Divides a (b.toList ++ rest) ps) (hb : Divides b rest qs) :
    Divides (a ++ b) rest (ps ++ qs) := by
  intro fresh
  rw [String.toList_append, List.append_assoc, ha, hb, freshAfter, freshAfter, freshAfter,
    List.foldl_append, List.append_assoc]

/-! ### Single pieces -/

/-- A text is a single piece if it has the form of one, be the line fresh or not. -/
theorem Divides.of_form {kind : Kind} (h : ∀ fresh, Form fresh rest ⟨kind, s.toList⟩) :
    Divides s rest [⟨kind, s.toList⟩] :=
  fun fresh => split_of_begins (.of_form (h fresh))

/-- Spaces are pieces of their own. -/
theorem Divides.blanks (n : Nat) (rest : List Char) :
    Divides (String.ofList (List.replicate n ' ')) rest
      (List.replicate n ⟨.blank, [' ']⟩) := by
  induction n with
  | zero => exact .nil rest
  | succ n ih =>
    have hfirst : Divides " " ((String.ofList (List.replicate n ' ')).toList ++ rest)
        [⟨.blank, [' ']⟩] := .of_form fun _ => .blank rfl
    have hcons : String.ofList (List.replicate (n + 1) ' ') =
        " " ++ String.ofList (List.replicate n ' ') := by
      simp [List.replicate_succ]
    rw [hcons]
    exact hfirst.append ih

/-- A word is a piece where no word character follows. -/
theorem Divides.word (h : IsWord s.toList) (hrest : EndsRun isWordChar rest) :
    Divides s rest [⟨.token (.word s), s.toList⟩] := by
  obtain ⟨c, cs, hs, hc, hcs⟩ := h.exists_cons
  refine .of_form fun fresh => ?_
  rw [← String.ofList_toList (s := s), hs, String.toList_ofList]
  exact .word hc hcs hrest

/-- A number is a piece where no digit or letter follows. -/
theorem Divides.number {v : Int} (h : ∀ c ∈ s.toList, c.isAlphanum)
    (hv : Literal.parse? s.toList = some v) (hrest : EndsRun Char.isAlphanum rest) :
    Divides s rest [⟨.token (.integer v), s.toList⟩] := by
  obtain ⟨⟨c, cs, hs, hc⟩, -⟩ := Literal.exists_of_parse?_of_alphanum h hv
  refine .of_form fun fresh => ?_
  have hnumber : numberLexeme s.toList = .integer v := by rw [numberLexeme, hv]
  rw [← hnumber, hs]
  exact .number hc (fun d hd => h d (hs ▸ List.mem_cons_of_mem c hd)) hrest

theorem Divides.space (rest : List Char) : Divides " " rest [⟨.blank, [' ']⟩] :=
  .of_form fun _ => .blank rfl

/-- A punctuation ends where it does, unless it may open a comment. -/
theorem Divides.mark {m : Punctuation} (hs : s.toList = m.text) (hm : m ≠ .slash)
    (rest : List Char) : Divides s rest [⟨.token (.mark m), s.toList⟩] := by
  refine .of_form fun fresh => ?_
  rw [hs]
  exact .mark fun hslash => absurd hslash hm

/-- A space ends any word. -/
theorem Divides.wordAndSpace (h : IsWord s.toList) (rest : List Char) :
    Divides (s ++ " ") rest [⟨.token (.word s), s.toList⟩, ⟨.blank, [' ']⟩] := by
  refine (Divides.word h ?_).append (.space rest)
  rintro d ⟨⟩
  rfl

/-- A character of a quoted text that neither ends it nor takes the next one along. -/
def isPlainQuoted (c : Char) : Bool :=
  c.toNat ≠ 0x22 ∧ c ≠ '\\' ∧ c ≠ '\n'

/-- A quoted text without escapes ends at its quote. -/
theorem quotedExtent_of_plain {cs : List Char} (hcs : ∀ c ∈ cs, isPlainQuoted c) :
    quotedExtent '"' (cs ++ '"' :: rest) = cs.length + 1 := by
  induction cs with
  | nil => simp [quotedExtent_cons]
  | cons c cs ih =>
    obtain ⟨hc, hcs⟩ := List.forall_mem_cons.mp hcs
    simp only [isPlainQuoted, decide_eq_true_eq] at hc
    have hquote : c ≠ '"' := by
      rintro rfl
      exact hc.1 rfl
    rw [List.cons_append, quotedExtent_cons, if_neg (by simp [hc.2.1]),
      if_neg (by simp [hquote, hc.2.2]), ih hcs, List.length_cons]

/-- Such a text is a piece whatever follows. -/
theorem Divides.quoted (h : ∀ c ∈ s.toList, isPlainQuoted c) (rest : List Char) :
    ∃ text, Divides ("\"" ++ s ++ "\"") rest [⟨.quoted, text⟩] := by
  refine ⟨_, .of_form fun fresh => ?_⟩
  have hs : ("\"" ++ s ++ "\"").toList = '"' :: (s.toList ++ ['"']) := by simp
  rw [hs]
  refine .quoted (.inl rfl) ?_
  rw [List.append_assoc, List.singleton_append, quotedExtent_of_plain h, List.length_append,
    List.length_singleton]

/-- A comment is a piece up to the end of its line. -/
theorem Divides.remark (h : '\n' ∉ s.toList) :
    Divides ("//" ++ s) ('\n' :: rest)
      [⟨.token (.remark (String.ofList (trim s.toList))), '/' :: '/' :: s.toList⟩] := by
  have hs : ("//" ++ s).toList = '/' :: '/' :: s.toList := by simp
  rw [← hs]
  refine .of_form fun fresh => ?_
  rw [hs]
  refine .remark (fun d hd => ?_) ?_
  · rw [bne_iff_ne]
    rintro rfl
    exact h hd
  · rintro d ⟨⟩
    rfl

/-! ### Chunks without gaps -/

/-- A piece that ends where it does whatever follows. -/
def isClosed (p : Piece) : Bool :=
  match p.kind with
  | .blank => true
  | .token (.mark m) => m ≠ .slash
  | _ => false

/-- A piece that ends where it does in front of a word. -/
def isOpen (p : Piece) : Bool :=
  p.isClosed || p.kind = .strays

/-- A closed piece stays one whatever follows. -/
theorem form_of_isClosed (h : Form fresh [] p) (hp : p.isClosed) (rest : List Char) :
    Form fresh rest p := by
  cases h with
  | blank hc => exact .blank hc
  | mark => exact .mark fun hm => absurd hm (of_decide_eq_true hp)
  | number =>
    unfold isClosed at hp
    split at hp
    case h_1 hk => cases hk
    case h_2 hk => exact absurd (Kind.token.inj hk) (numberLexeme_ne_mark _ _)
    case h_3 => cases hp
  | _ => cases hp

/-- An open piece stays one if a word follows. -/
theorem form_of_isOpen (h : Form fresh [] p) (hp : p.isOpen) (hrest : IsWord a.toList) :
    Form fresh (a.toList ++ rest) p := by
  unfold isOpen at hp
  rcases (Bool.or_eq_true _ _).mp hp with hp | hp
  · exact form_of_isClosed h hp _
  · cases h with
    | strays hc hnone =>
      obtain ⟨c, cs, ha, hstart, -⟩ := hrest.exists_cons
      refine .strays hc hnone fun _ hhead => hc.not_word ?_
      rw [ha] at hhead
      cases hhead
      exact hstart
    | _ => cases of_decide_eq_true hp

/-- A chunk is divided by evaluation if its last piece keeps its form. -/
theorem Divides.of_split (h : split true s.toList = split false s.toList)
    (hlast : ∀ p ∈ (split false s.toList).getLast?, ∀ fresh, Form fresh [] p → Form fresh rest p) :
    Divides s rest (split false s.toList) := by
  intro fresh
  have hfresh : split fresh s.toList = split false s.toList := by
    cases fresh
    · rfl
    · exact h
  rcases List.eq_nil_or_concat (split false s.toList) with hnil | ⟨ps, p, hps⟩
  · have hs := flatMap_text_split false s.toList
    rw [hnil] at hs
    rw [hnil, ← hs]
    rfl
  · rw [List.concat_eq_append] at hps
    rw [hps] at hfresh hlast ⊢
    have hform := form_of_split hfresh
    have hrest := hlast p (by simp) _ hform
    rw [split_append hfresh (.of_form hrest), List.append_assoc]
    rfl

/-- A text that ends closed is divided alike whatever follows. -/
theorem Divides.of_closed (h : split true s.toList = split false s.toList)
    (hlast : (split false s.toList).getLast?.all isClosed) :
    Divides s rest (split false s.toList) := by
  refine .of_split h fun p hp fresh hform => form_of_isClosed hform ?_ rest
  rw [Option.mem_def] at hp
  rwa [hp] at hlast

/-- A chunk with the pieces that evaluation finds. -/
theorem Divides.constant (htrue : split true s.toList = ps) (hfalse : split false s.toList = ps)
    (hlast : ps.getLast?.all isClosed) (rest : List Char) : Divides s rest ps := by
  subst hfalse
  exact .of_closed htrue hlast

/-- A text that ends open is divided alike if a word follows. -/
theorem Divides.of_open (h : split true s.toList = split false s.toList)
    (hlast : (split false s.toList).getLast?.all isOpen) (hw : IsWord a.toList) :
    Divides s (a.toList ++ rest) (split false s.toList) := by
  refine .of_split h fun p hp fresh hform => form_of_isOpen hform ?_ hw
  rw [Option.mem_def] at hp
  rwa [hp] at hlast

end Piece

end Enumerant.Header
