import Enumerant.Proofs.Header.LiteralText
import Enumerant.Proofs.Integer.Literal
import Enumerant.Proofs.Registry.Steps
import Enumerant.Proofs.Result

/-!
# The values in registries

Whatever a registry declares, each of its members has a value of one of four kinds (`EntryValue`):
every event keeps this of what has been read so far (`Describes.step`), and so does the placing of
additions. The text of a literal follows from its kind. `means_iff_of_literal` says for both sources
what texts of literals mean.
-/

namespace Enumerant

open Text

/-! ### Members of schemas -/

namespace Schema

variable {P : Member → Prop} {s : Schema} {g : Group} {name : String} {ms : List Member}

/-- Appending members of a kind keeps all members of it. -/
theorem forall_extend {gs : List Group} (hgs : ∀ g ∈ gs, ∀ m ∈ g.members, P m)
    (hms : ∀ m ∈ ms, P m) : ∀ g ∈ extend name ms gs, ∀ m ∈ g.members, P m := by
  induction gs with
  | nil => exact fun g hg => absurd hg List.not_mem_nil
  | cons h gs ih =>
    obtain ⟨hh, hgs⟩ := List.forall_mem_cons.mp hgs
    rw [extend]
    split
    · refine List.forall_mem_cons.mpr ⟨?_, hgs⟩
      exact List.forall_mem_append.mpr ⟨hh, hms⟩
    · exact List.forall_mem_cons.mpr ⟨hh, ih hgs⟩

/-- What holds of all members still does when a declaration adds members like them. -/
theorem forall_addGroup (hs : ∀ g ∈ s.groups, ∀ m ∈ g.members, P m) (hg : ∀ m ∈ g.members, P m) :
    ∀ u ∈ (s.addGroup g).groups, ∀ m ∈ u.members, P m := by
  rw [groups_addGroup]
  split
  · exact forall_extend hs hg
  · exact List.forall_mem_append.mpr ⟨hs, List.forall_mem_singleton.mpr hg⟩

end Schema

namespace Registry

variable {s s' : State} {m : Member} {attrs : Attributes} {v : Int} {t : String}

/-! ### Kinds of values -/

/-- The values that an entry may describe. -/
inductive EntryValue : Initializer → Prop
  | reference (target : String) : EntryValue (.reference target)
  | text (text : String) : EntryValue (valueOfText text)
  | bit (position width : Nat) : EntryValue (bitValue position width)
  | offset (value : Int) : EntryValue (.decimal value)

/-- The value of an entry is one of those that entries have. -/
theorem EntryValue.of_entryValue {name : String} {width : Nat} {extension : Option Int}
    {value : Initializer} (h : entryValue name attrs width extension = .ok (some value)) :
    EntryValue value := by
  unfold entryValue at h
  repeat' split at h
  all_goals cases h
  · exact .reference _
  · exact .text _
  · exact .bit _ _
  · exact .offset _

/-- So is that of the member that it becomes. -/
theorem EntryValue.of_member {width : Nat} {extension : Option Int}
    (h : entryOf? attrs width extension = .ok (some m)) : EntryValue m.value := by
  unfold entryOf? at h
  split at h
  · cases h
  · split at h
    case h_1 hvalue =>
      cases h
      exact .of_entryValue hvalue
    case h_2 => cases h
    case h_3 => cases h

/-! ### Reading -/

/-- All members read so far have values that entries describe. -/
structure Describes (s : State) : Prop where
  schema : ∀ g ∈ s.schema.groups, ∀ m ∈ g.members, EntryValue m.value
  group : ∀ g ∈ s.group, ∀ m ∈ g.members, EntryValue m.value
  additions : ∀ a ∈ s.additions, EntryValue a.member.value

namespace Describes

/-- A new block has no members yet. -/
theorem openBlock {isEmpty : Bool} (hs : Describes s) (h : s.openBlock attrs isEmpty = .ok s') :
    Describes s' := by
  have hnew : ∀ g, block? attrs = .ok (some g) → g.members = [] := by
    intro g hg
    unfold block? at hg
    repeat' split at hg
    all_goals cases hg
    all_goals rfl
  unfold State.openBlock at h
  split at h
  case h_1 => cases h
  case h_2 =>
    cases h
    exact hs
  case h_3 g hg =>
    have hempty : ∀ m ∈ g.members, EntryValue m.value := by simp [hnew g hg]
    split at h <;> cases h
    · exact ⟨Schema.forall_addGroup hs.schema hempty, hs.group, hs.additions⟩
    · refine ⟨hs.schema, ?_, hs.additions⟩
      rintro g ⟨⟩
      exact hempty

/-- An entry adds its member. -/
theorem openEntry (hs : Describes s) (h : s.openEntry attrs = .ok s') : Describes s' := by
  unfold State.openEntry at h
  split at h
  case h_1 g hg =>
    split at h
    case h_1 => cases h
    case h_2 member hentry =>
      cases h
      refine ⟨hs.schema, ?_, hs.additions⟩
      rintro _ ⟨⟩ m hm
      rcases List.mem_append.mp hm with hm | hm
      · exact hs.group g hg m hm
      · rw [Option.mem_toList] at hm
        exact .of_member (hm ▸ hentry)
  case h_2 =>
    split at h
    case h_1 =>
      cases h
      exact hs
    case h_2 =>
      split at h
      case h_1 => cases h
      case h_2 =>
        cases h
        exact hs
      case h_3 member hentry =>
        cases h
        refine ⟨hs.schema, hs.group, List.forall_mem_append.mpr ⟨hs.additions, ?_⟩⟩
        exact List.forall_mem_singleton.mpr (.of_member hentry)

/-- Only the members count for what is described. -/
theorem of_eq (hs : Describes s) (hschema : s'.schema.groups = s.schema.groups)
    (hgroup : s'.group = s.group) (hadditions : s'.additions = s.additions) : Describes s' :=
  ⟨hschema ▸ hs.schema, hgroup ▸ hs.group, hadditions ▸ hs.additions⟩

/-- A start tag keeps what is described. -/
theorem opened {tag : Markup.Tag} (hs : Describes s) (h : s.opened tag = .ok s') :
    Describes s' := by
  cases hfield : s.field with
  | some f =>
    rw [opened_of_field hfield h]
    split
    · exact hs
    · exact hs.of_eq rfl rfl rfl
  | none =>
    cases begins_of_opened hfield h with
    | same => exact hs
    | block h => exact hs.openBlock h
    | entry h => exact hs.openEntry h
    | extension number => exact hs.of_eq rfl rfl rfl
    | struct attrs =>
      obtain ⟨struct, heq⟩ := exists_openStruct s attrs
      exact heq ▸ hs.of_eq rfl rfl rfl
    | field attrs => exact hs.of_eq rfl rfl rfl

/-- An end tag keeps what is described. -/
theorem closed (hs : Describes s) (name : String) : Describes (s.closed name) := by
  cases hfield : s.field with
  | some f =>
    obtain ⟨struct, field, heq⟩ := exists_closedInField s f name
    rw [closed_of_field hfield, heq]
    exact hs.of_eq rfl rfl rfl
  | none =>
    generalize hs' : s.closed name = s'
    cases ends_of_closed hfield hs' with
    | same => exact hs
    | @block g hg =>
      refine ⟨Schema.forall_addGroup hs.schema (hs.group g hg), ?_, hs.additions⟩
      exact fun g hg => absurd hg (Option.not_mem_none g)
    | struct => exact hs.of_eq (Schema.groups_addStruct _ _) rfl rfl
    | extension => exact hs.of_eq rfl rfl rfl

/-- An event adds no members but those that entries describe. -/
theorem step {e : Markup.Event} (hs : Describes s) (h : s.step e = .ok s') : Describes s' := by
  cases e with
  | opening tag => exact hs.opened h
  | closing name =>
    cases h
    exact hs.closed name
  | text raw =>
    obtain ⟨text, rfl⟩ := exists_of_step_text h
    exact hs.of_eq rfl rfl rfl

/-- So do all the events of a document. -/
theorem foldlM_step {events : List Markup.Event} (hs : Describes s)
    (h : events.foldlM State.step s = .ok s') : Describes s' :=
  foldlM_keeps (fun hs h => step hs h) hs h

end Describes

/-! ### Additions -/

/-- Placing an addition keeps the values of entries. -/
theorem forall_place {schema : Schema} {a : Addition}
    (hs : ∀ g ∈ schema.groups, ∀ m ∈ g.members, EntryValue m.value)
    (ha : EntryValue a.member.value) :
    ∀ g ∈ (a.place schema).groups, ∀ m ∈ g.members, EntryValue m.value := by
  unfold Addition.place
  split
  case h_1 =>
    rw [Schema.groups_append]
    refine Schema.forall_extend hs (List.forall_mem_singleton.mpr ?_)
    dsimp only
    split
    · exact .bit _ _
    · exact ha
  case h_2 => exact hs

theorem forall_foldl_place {additions : List Addition} {schema : Schema}
    (hs : ∀ g ∈ schema.groups, ∀ m ∈ g.members, EntryValue m.value)
    (hadditions : ∀ a ∈ additions, EntryValue a.member.value) :
    ∀ g ∈ (additions.foldl Addition.place schema).groups, ∀ m ∈ g.members,
      EntryValue m.value := by
  induction additions generalizing schema with
  | nil => exact hs
  | cons a additions ih =>
    obtain ⟨ha, hadditions⟩ := List.forall_mem_cons.mp hadditions
    exact ih (forall_place hs ha) hadditions

/-- Every member that a registry declares has a value that an entry describes. -/
theorem entryValue_of_read {text : String} {c : Contents} (h : read text = .ok c) :
    ∀ g ∈ c.schema.groups, ∀ m ∈ g.members, EntryValue m.value := by
  unfold read at h
  dsimp only at h
  split at h
  case h_1 => cases h
  case h_2 s hs =>
    have hdescribes : Describes s := by
      refine Describes.foldlM_step ⟨?_, ?_, ?_⟩ hs
      · exact fun g hg => absurd hg List.not_mem_nil
      · exact fun g hg => absurd hg (Option.not_mem_none g)
      · exact fun a ha => absurd ha List.not_mem_nil
    split at h <;> cases h
    exact forall_foldl_place hdescribes.schema hdescribes.additions

/-! ### Texts of literals -/

/-- The text of a literal is a run of digits, letters and signs behind at most a minus sign; if they
are a literal by themselves, its value is that of the text. -/
structure Spells (t : String) (v : Int) (sign digits : List Char) : Prop where
  toList : t.toList = sign ++ digits
  minus : sign = [] ∧ digits.head? ≠ some '-' ∨ sign = ['-']
  chars : ∀ c ∈ digits, c.isAlphanum ∨ c = '-' ∨ c = '+'
  first : (∀ c ∈ digits, c.isAlphanum) → ∃ c cs, digits = c :: cs ∧ c.isDigit
  value : ∀ w, Literal.parse? digits = some w → v = if sign = [] then w else wrapped (-w)

/-- A value that is written is spelled by its text. -/
theorem exists_spells_of_text {text : String} (h : valueOfText text = .literal v t) :
    ∃ sign digits, Spells t v sign digits := by
  unfold valueOfText at h
  dsimp only at h
  split at h
  case h_2 => cases h
  case h_1 w hw =>
    cases h
    split at hw
    case h_1 digits htrim =>
      obtain ⟨u, hu, rfl⟩ := Option.map_eq_some_iff.mp hw
      refine ⟨['-'], digits, ?_, .inr rfl, Literal.forall_of_parse? hu, ?_, ?_⟩
      · rw [htrim, String.toList_ofList]
        rfl
      · exact fun hdigits => (Literal.exists_of_parse?_of_alphanum hdigits hu).1
      · intro u' hu'
        cases hu.symm.trans hu'
        rfl
    -- What begins with a minus sign was dealt with, so there is no sign in front.
    case h_2 hminus =>
      refine ⟨[], _, String.toList_ofList, .inl ⟨rfl, ?_⟩, Literal.forall_of_parse? hw, ?_, ?_⟩
      · intro hhead
        obtain ⟨ds, hds⟩ := List.head?_eq_some_iff.mp hhead
        exact hminus ds hds
      · exact fun hdigits => (Literal.exists_of_parse?_of_alphanum hdigits hw).1
      · intro w' hw'
        cases hw.symm.trans hw'
        rfl

/-- The value of a bit is spelled in hexadecimal. -/
theorem exists_spells_of_bit {position width : Nat}
    (h : bitValue position width = .literal v t) : ∃ sign digits, Spells t v sign digits := by
  obtain ⟨more, suffix, hsuffix, hvalue⟩ := Literal.exists_bitValue_eq position width
  obtain ⟨hv, ht⟩ := Initializer.literal.inj (h.symm.trans hvalue)
  refine ⟨[], _, (congrArg String.toList ht).trans String.toList_ofList,
    .inl ⟨rfl, by simp⟩, ?_, ?_, ?_⟩
  · refine List.forall_mem_cons.mpr ⟨.inl (by decide), List.forall_mem_cons.mpr
      ⟨.inl (by decide), List.forall_mem_append.mpr ⟨fun c hc => .inl ?_, fun c hc => .inl ?_⟩⟩⟩
    · exact Numeral.isAlphanum_padded (by decide) (by decide) c hc
    · exact Literal.isAlphanum_of_isSuffix (hsuffix c hc)
  · exact fun _ => ⟨_, _, rfl, by decide⟩
  · intro w hw
    rw [Literal.parse?_hex hsuffix] at hw
    obtain ⟨hfits, rfl⟩ := checked_eq_some_iff.mp hw
    rw [hv, if_pos rfl, wrapped_eq_self_iff.mpr hfits]

/-- The value of an offset is spelled in decimal. -/
theorem exists_spells_decimal (v : Int) : ∃ sign digits, Spells (toString v) v sign digits := by
  have hspells : ∀ (sign : List Char) (n : Nat), (sign = [] ∨ sign = ['-']) →
      (toString v).toList = sign ++ Nat.toDigits 10 n → (v = if sign = [] then (n : Int) else -n) →
      ∃ sign digits, Spells (toString v) v sign digits := by
    intro sign n hsign ht hv
    have hdigit : ∀ c ∈ Nat.toDigits 10 n, c.isDigit := fun c hc =>
      Nat.isDigit_of_mem_toDigits (by decide) (by decide) hc
    obtain ⟨c, cs, hcs⟩ := List.exists_cons_of_ne_nil (@Nat.toDigits_ne_nil n 10)
    have hc : c.isDigit := hdigit c (by simp [hcs])
    refine ⟨sign, _, ht, ?_, fun c hc => .inl (by simp [Char.isAlphanum, hdigit c hc]),
      fun _ => ⟨c, cs, hcs, hc⟩, fun w hw => ?_⟩
    · refine hsign.imp_left fun hnil => ⟨hnil, ?_⟩
      rw [hcs, List.head?_cons]
      rintro ⟨⟩
      exact absurd hc (by decide)
    · rw [Literal.parse?_toDigits] at hw
      obtain ⟨hfits, rfl⟩ := checked_eq_some_iff.mp hw
      rw [wrapped_neg hfits (Int.natCast_nonneg n)]
      exact hv
  rw [Int.toString_eq_repr] at hspells ⊢
  cases v with
  | ofNat n => exact hspells [] n (.inl rfl) (by simp [Int.repr]) rfl
  | negSucc n => exact hspells ['-'] (n + 1) (.inr rfl) (by simp [Int.repr]) rfl

/-- Every literal of a registry has a text that spells it. -/
theorem EntryValue.exists_spells (h : EntryValue (.literal v t)) :
    ∃ sign digits, Spells t v sign digits := by
  generalize hvalue : Initializer.literal v t = value at h
  cases h with
  | reference => cases hvalue
  | text => exact exists_spells_of_text hvalue.symm
  | bit => exact exists_spells_of_bit hvalue.symm
  | offset =>
    cases hvalue
    exact exists_spells_decimal v

/-- A text that is a number behind at most a minus sign means the value of its literal exactly if
the number is an integer literal. -/
theorem Spells.means_iff {sign digits sign' digits' : List Char} (h : Spells t v sign digits)
    (ht : t.toList = sign' ++ digits') (hsign : sign' = [] ∨ sign' = ['-'])
    (hdigits : ∀ c ∈ digits', c.isAlphanum) :
    Header.Means t v ↔ (Literal.parse? digits').isSome := by
  have heq : sign' = sign ∧ digits' = digits := by
    rcases hsign with rfl | rfl <;> rcases h.minus with ⟨rfl, hhead⟩ | rfl <;>
      have hlist := ht.symm.trans h.toList
    · exact ⟨rfl, hlist⟩
    · rw [List.nil_append] at hlist
      exact absurd (hdigits '-' (by simp [hlist])) (by decide)
    · rw [List.nil_append] at hlist
      exact absurd (by rw [← hlist]; rfl) hhead
    · exact ⟨rfl, List.append_cancel_left hlist⟩
  obtain ⟨rfl, rfl⟩ := heq
  rw [Header.means_iff_of_digits ht hsign hdigits (h.first hdigits), Option.isSome_iff_exists]
  refine exists_congr fun w => ⟨And.left, fun hw => ⟨hw, ?_⟩⟩
  obtain ⟨-, hnonneg, hfits⟩ := Literal.exists_of_parse?_of_alphanum hdigits hw
  rw [← wrapped_neg hfits hnonneg]
  exact h.value w hw

/-- What spells a value is on one line. -/
theorem Spells.newline_not_mem {sign digits : List Char} (h : Spells t v sign digits) :
    '\n' ∉ t.toList := by
  rw [h.toList, List.mem_append]
  rintro (hc | hc)
  · rcases h.minus with ⟨rfl, -⟩ | rfl <;> simp at hc
  · rcases h.chars _ hc with hc | hc | hc <;> exact absurd hc (by decide)

end Registry

/-! ### Texts and values -/

/-- **What the texts of literals mean.** No text holds a line break. In a header a text, which is
that of the initializer from its first token to its last with blanks collapsed, means the value
unless something in it ended with its line: a line comment, a directive, or a quoted text. In a
registry a text with no sign but a minus in front means the value if it is an integer literal. -/
theorem means_iff_of_literal (text : String) :
    (∀ s, Header.parse text = .ok s → ∀ g ∈ s.groups, ∀ m ∈ g.members, ∀ v t,
      m.value = .literal v t →
        '\n' ∉ t.toList ∧ (∃ source, Header.Written text m source) ∧
          ∀ source, Header.Written text m source →
            (∀ p ∈ Header.core (Header.Piece.split false source), ¬ p.IsBroken) →
            (Header.Means t v ↔
              ∀ p ∈ Header.core (Header.Piece.split false source), ¬ p.EndsWithLine)) ∧
    ∀ c, Registry.read text = .ok c → ∀ g ∈ c.schema.groups, ∀ m ∈ g.members, ∀ v t,
      m.value = .literal v t →
        '\n' ∉ t.toList ∧ ∀ sign digits, t.toList = sign ++ digits → sign = [] ∨ sign = ['-'] →
          (∀ c ∈ digits, c.isAlphanum) →
          (Header.Means t v ↔ (Literal.parse? digits).isSome) := by
  constructor
  · intro s hs g hg m hm v t hvalue
    obtain ⟨last, hdecl⟩ := Header.declaresMember_of_parse hs hg hm
    obtain ⟨source, hwritten⟩ := Header.exists_written hdecl (by simp [hvalue])
    exact ⟨(hwritten.means_iff hvalue).2.1, ⟨source, hwritten⟩,
      fun source h => (h.means_iff hvalue).2.2⟩
  · intro c hc g hg m hm v t hvalue
    have hentry := Registry.entryValue_of_read hc g hg m hm
    rw [hvalue] at hentry
    obtain ⟨sign, digits, hspells⟩ := hentry.exists_spells
    exact ⟨hspells.newline_not_mem, fun sign' digits' => hspells.means_iff⟩

/-- A registry with a negative hexadecimal value. -/
def hexRegistry : String :=
  "<registry><enums name=\"E\" type=\"enum\"><enum name=\"A\" value=\"-0x10\"/></enums></registry>"

theorem read_hexRegistry : Registry.read hexRegistry =
    .ok { schema := { groups := [⟨"E", .plain, 32, [⟨"A", .literal (-16) "-0x10", none⟩]⟩] } } := by
  decide +kernel

/-- A sum with a block comment means its value, and so does a negative hexadecimal number. -/
theorem means_commentedSum_and_hexRegistry :
    (Header.parse Header.quotedCharacter =
        .ok { groups := [⟨"E", .plain, 32, [Header.commentedSum, Header.quotedSum]⟩] } ∧
      Header.Means "1 /* one */ + 2" 3) ∧
    Registry.read hexRegistry =
        .ok { schema := { groups := [⟨"E", .plain, 32, [⟨"A", .literal (-16) "-0x10", none⟩]⟩] } } ∧
      Header.Means "-0x10" (-16) := by
  refine ⟨⟨Header.parse_quotedCharacter, ?_⟩, read_hexRegistry, ?_⟩
  · have h := ((means_iff_of_literal Header.quotedCharacter).1 _ Header.parse_quotedCharacter _
      (List.mem_singleton_self _) Header.commentedSum List.mem_cons_self _ _ rfl).2.2 _
      Header.written_commentedSum
    have hsplit : Header.Piece.split false " 1 /* one */ + 2".toList =
        [⟨.blank, [' ']⟩, ⟨.token (.integer 1), ['1']⟩, ⟨.blank, [' ']⟩,
          ⟨.comment, "/* one */".toList⟩, ⟨.blank, [' ']⟩, ⟨.token (.mark .plus), ['+']⟩,
          ⟨.blank, [' ']⟩, ⟨.token (.integer 2), ['2']⟩] := by
      decide +kernel
    rw [hsplit] at h
    refine (h ?_).mpr ?_ <;>
      simp [Header.core, Header.Piece.isSolid, Header.Piece.lexemes, Header.Lexeme.isSolid,
        List.rdropWhile, Header.Piece.IsBroken, Header.Piece.EndsWithLine]
  · have h := ((means_iff_of_literal hexRegistry).2 _ read_hexRegistry _
      (List.mem_singleton_self _) _ (List.mem_singleton_self _) _ _ rfl).2 ['-'] "0x10".toList
      rfl (.inr rfl) (List.all_eq_true.mp rfl)
    exact h.mpr (by decide +kernel)

/-- A sum over two lines with a comment at the end of the first. -/
def lineComment : String :=
  "enum E \x7b A = 1 // one\n + 2 \x7d;"

/-- The text that is kept of the sum does not mean its value: the comment goes on to the end. -/
theorem not_means_lineComment :
    ∃ s, Header.parse lineComment = .ok s ∧ ∃ g ∈ s.groups, ∃ m ∈ g.members,
      m.value = .literal 3 "1 // one + 2" ∧ ¬ Header.Means "1 // one + 2" 3 := by
  have hparse : Header.parse lineComment =
      .ok { groups := [⟨"E", .plain, 32, [⟨"A", .literal 3 "1 // one + 2", none⟩]⟩] } := by
    decide +kernel
  refine ⟨_, hparse, _, List.mem_singleton_self _, _, List.mem_singleton_self _, rfl, ?_⟩
  rw [Header.means_iff_split]
  decide +kernel

end Enumerant
