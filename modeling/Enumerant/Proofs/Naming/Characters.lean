import Enumerant.Naming.Types
import Enumerant.Proofs.Text.Letters
import Enumerant.Proofs.Text.Part

/-!
# The characters of names

A name that consists of letters, digits and underscores keeps doing so whatever spelling it is put
into: each spelling only leaves characters out, changes their case, or puts underscores between
them. The same goes for names without a line break, and for every other kind of character that
changes of case keep to (`Spellable`). Names of types and of tagged members are words again
(`IsWord`), for they begin as the name they are made of, or with their tag.
-/

namespace Enumerant

open Text Header

variable {c : Char} {cs ds name front tail : List Char}

/-! ### Words -/

/-- A text is a word of a header: it begins with a letter or an underscore and goes on with letters,
digits and underscores. -/
def Header.IsWord (cs : List Char) : Prop :=
  (∃ c ∈ cs.head?, isWordStart c) ∧ ∀ c ∈ cs, isWordChar c

/-- Words are a letter or an underscore with word characters behind it. -/
theorem Header.isWord_iff : IsWord cs ↔ cs.head?.any isWordStart ∧ cs.all isWordChar := by
  rw [IsWord, Option.any_eq_true, List.all_eq_true]
  rfl

instance (cs : List Char) : Decidable (IsWord cs) :=
  decidable_of_iff _ isWord_iff.symm

theorem Header.not_isWordStart_of_isDigit (h : c.isDigit) : isWordStart c = false := by
  rw [isDigit_iff] at h
  rw [← Bool.not_eq_true, isWordStart_iff]
  omega

theorem Header.isWord_cons (hc : isWordStart c) (hcs : ∀ d ∈ cs, isWordChar d) :
    IsWord (c :: cs) :=
  ⟨⟨c, rfl, hc⟩, List.forall_mem_cons.mpr ⟨isWordChar_of_isWordStart hc, hcs⟩⟩

/-- A word has a first character. -/
theorem Header.IsWord.exists_cons (h : IsWord cs) :
    ∃ c ds, cs = c :: ds ∧ isWordStart c ∧ ∀ d ∈ ds, isWordChar d := by
  obtain ⟨⟨c, hhead, hc⟩, hall⟩ := h
  obtain ⟨ds, rfl⟩ := List.head?_eq_some_iff.mp hhead
  exact ⟨c, ds, rfl, hc, fun d hd => hall d (List.mem_cons_of_mem c hd)⟩

/-- Word characters behind a word make a longer one. -/
theorem Header.IsWord.append (h : IsWord cs) (hds : ∀ d ∈ ds, isWordChar d) :
    IsWord (cs ++ ds) := by
  obtain ⟨c, es, rfl, hc, hes⟩ := h.exists_cons
  exact isWord_cons hc (List.forall_mem_append.mpr ⟨hes, hds⟩)

namespace Text

/-! ### Kinds of characters -/

/-- A kind of character that spellings keep to: with every character it holds of those that stand
for it in the other case, and it holds of the characters that spellings put in. -/
structure Spellable (P : Char → Prop) : Prop where
  upperChar : ∀ c, P c → ∀ d ∈ upperChar c, P d
  lowerChar : ∀ c, P c → ∀ d ∈ lowerChar c, P d
  sigma : P 'Σ' → P 'ς' ∧ P 'σ'
  x : P 'x'
  underscore : P '_'

/-- Word characters are among the first 128. -/
theorem lt_of_isWordChar (hc : isWordChar c) : c.toNat < 128 := by
  rw [isWordChar_iff] at hc
  omega

/-- Names made of word characters stay so. -/
theorem spellable_isWordChar : Spellable (fun c => isWordChar c) where
  upperChar c hc := by
    have hupper : isWordChar c → isWordChar c.toUpper :=
      forall_of_ascii (P := fun c => isWordChar c → isWordChar c.toUpper) (by decide +kernel)
        (lt_of_isWordChar hc)
    rw [Text.upperChar, if_pos (lt_of_isWordChar hc)]
    exact List.forall_mem_singleton.mpr (hupper hc)
  lowerChar c hc := by
    have hlower : isWordChar c → isWordChar c.toLower :=
      forall_of_ascii (P := fun c => isWordChar c → isWordChar c.toLower) (by decide +kernel)
        (lt_of_isWordChar hc)
    rw [Text.lowerChar, if_pos (lt_of_isWordChar hc)]
    exact List.forall_mem_singleton.mpr (hlower hc)
  sigma h := absurd h (by decide)
  x := by decide
  underscore := by decide

/-- Only its own number gives the line break. -/
theorem toNat_of_ofNat_eq_newline {n : Nat} (h : Char.ofNat n = '\n') : n = 10 := by
  by_cases hn : n.isValidChar
  · rw [Char.ofNat, dif_pos hn] at h
    exact congrArg Char.toNat h
  · rw [Char.ofNat, dif_neg hn] at h
    exact absurd h (by decide)

/-- Characters beyond the first 128 stay away from the line break when they are shifted. -/
theorem ofNat_apply_ne_newline {shifts : List Shift} {n : Nat}
    (h : ∀ s ∈ shifts, 10 < s.run.first + s.distance) (hn : 128 ≤ n) :
    Char.ofNat (Shift.apply shifts n) ≠ '\n' := by
  intro heq
  have hten := toNat_of_ofNat_eq_newline heq
  unfold Shift.apply at hten
  split at hten
  case h_1 s hs =>
    have hfirst : s.run.first ≤ n := by
      have hcontains := List.find?_some hs
      simp only [Run.contains, Bool.and_eq_true, decide_eq_true_eq] at hcontains
      exact hcontains.1.1
    have hdistance := h s (List.mem_of_find?_eq_some hs)
    omega
  case h_2 => omega

/-- No mapping to capitals leads to a line break. -/
theorem ten_lt_upperShifts :
    upperShifts.all fun s => decide (10 < s.run.first + s.distance) := by
  decide +kernel

/-- No mapping to small letters leads to a line break. -/
theorem ten_lt_lowerShifts :
    lowerShifts.all fun s => decide (10 < s.run.first + s.distance) := by
  decide +kernel

theorem ten_not_mem_upperSequences : ∀ p ∈ upperSequences, 10 ∉ p.2 := by
  have hall : upperSequences.all fun p => decide (10 ∉ p.2) := by decide +kernel
  exact fun p hp => of_decide_eq_true (List.all_eq_true.mp hall p hp)

/-- Names without line breaks stay so. -/
theorem spellable_ne_newline : Spellable (· ≠ '\n') where
  upperChar c hc := by
    unfold Text.upperChar
    split
    case isTrue hascii =>
      have hupper : c ≠ '\n' → c.toUpper ≠ '\n' :=
        forall_of_ascii (P := fun c => c ≠ '\n' → c.toUpper ≠ '\n') (by decide +kernel) hascii
      exact List.forall_mem_singleton.mpr (hupper hc)
    case isFalse hascii =>
      split
      case h_1 cs hcs =>
        obtain ⟨before, after, heq, -⟩ := List.lookup_eq_some_iff.mp hcs
        -- No entry of the table has the code of a line break.
        have hmem : (c.toNat, cs) ∈ upperSequences := heq ▸ by simp
        intro d hd hline
        obtain ⟨n, hn, rfl⟩ := List.mem_map.mp hd
        obtain rfl := toNat_of_ofNat_eq_newline hline
        exact ten_not_mem_upperSequences _ hmem hn
      case h_2 =>
        exact List.forall_mem_singleton.mpr (ofNat_apply_ne_newline
          (fun s hs => by simpa using List.all_eq_true.mp ten_lt_upperShifts s hs) (by omega))
  lowerChar c hc := by
    unfold Text.lowerChar
    split
    case isTrue hascii =>
      have hlower : c ≠ '\n' → c.toLower ≠ '\n' :=
        forall_of_ascii (P := fun c => c ≠ '\n' → c.toLower ≠ '\n') (by decide +kernel) hascii
      exact List.forall_mem_singleton.mpr (hlower hc)
    case isFalse hascii =>
      split
      · simp
      · exact List.forall_mem_singleton.mpr (ofNat_apply_ne_newline
          (fun s hs => by simpa using List.all_eq_true.mp ten_lt_lowerShifts s hs) (by omega))
  sigma _ := by decide
  x := by decide
  underscore := by decide

/-! ### Case -/

section Spellable

variable {P : Char → Prop} (hP : Spellable P)

include hP

/-- Capitals are spelled with the same characters. -/
theorem Spellable.upper (hcs : ∀ c ∈ cs, P c) : ∀ c ∈ upper cs, P c := by
  intro d hd
  obtain ⟨c, hc, hd⟩ := List.mem_flatMap.mp hd
  exact hP.upperChar c (hcs c hc) d hd

/-- Small letters are spelled with the same characters. -/
theorem Spellable.lowerAfter (hcs : ∀ c ∈ cs, P c) (cased : Bool) :
    ∀ c ∈ lowerAfter cased cs, P c := by
  induction cs generalizing cased with
  | nil => exact fun c hc => absurd hc List.not_mem_nil
  | cons c cs ih =>
    obtain ⟨hc, hcs⟩ := List.forall_mem_cons.mp hcs
    rw [Text.lowerAfter]
    refine List.forall_mem_append.mpr ⟨?_, ih hcs _⟩
    split
    case isTrue hsigma =>
      obtain ⟨hfinal, hmedial⟩ := hP.sigma (hsigma ▸ hc)
      refine List.forall_mem_singleton.mpr ?_
      split
      · exact hfinal
      · exact hmedial
    case isFalse => exact hP.lowerChar c hc

end Spellable

end Text

namespace Naming

/-! ### Spellings -/

section Spellable

variable {P : Char → Prop} (hP : Spellable P)

include hP

/-- So are titles. -/
theorem forall_titleAfter (hcs : ∀ c ∈ cs, P c) (letter : Bool) :
    ∀ c ∈ titleAfter letter cs, P c := by
  induction cs generalizing letter with
  | nil => exact fun c hc => absurd hc List.not_mem_nil
  | cons c cs ih =>
    obtain ⟨hc, hcs⟩ := List.forall_mem_cons.mp hcs
    rw [titleAfter]
    split
    · refine List.forall_mem_append.mpr ⟨?_, ih hcs _⟩
      split
      · exact hP.lowerChar c hc
      · exact hP.upperChar c hc
    · exact List.forall_mem_cons.mpr ⟨hc, ih hcs _⟩

/-- So are the words of camel case. -/
theorem forall_camelWord (hcs : ∀ c ∈ cs, P c) : ∀ c ∈ camelWord cs, P c := by
  unfold camelWord
  split
  · rcases cs with - | ⟨c, cs⟩
    · exact hcs
    · obtain ⟨hc, hcs⟩ := List.forall_mem_cons.mp hcs
      exact List.forall_mem_append.mpr ⟨hP.upperChar c hc, hcs⟩
  · exact forall_titleAfter hP hcs false

theorem forall_lowerDimensions (hcs : ∀ c ∈ cs, P c) (before : Factor) :
    ∀ c ∈ lowerDimensions before cs, P c := by
  induction cs generalizing before with
  | nil => exact fun c hc => absurd hc List.not_mem_nil
  | cons c cs ih =>
    obtain ⟨hc, hcs⟩ := List.forall_mem_cons.mp hcs
    rw [lowerDimensions]
    split
    · exact List.forall_mem_cons.mpr ⟨hc, ih hcs _⟩
    · split
      · exact List.forall_mem_cons.mpr ⟨hP.x, ih hcs _⟩
      · exact List.forall_mem_cons.mpr ⟨hc, ih hcs _⟩

/-- The camel-case name has the characters of the name. -/
theorem forall_camel (hname : ∀ c ∈ name, P c) : ∀ c ∈ camel name, P c := by
  refine forall_lowerDimensions hP (fun c hc => ?_) .none
  obtain ⟨f, hf, hc⟩ := List.mem_flatMap.mp hc
  exact forall_camelWord hP (fun d hd => hname d (mem_of_mem_fields hf hd)) c hc

theorem forall_breakBetween {left right : Char → Bool} (hcs : ∀ c ∈ cs, P c) :
    ∀ c ∈ breakBetween left right cs, P c := by
  induction cs with
  | nil => exact fun c hc => absurd hc List.not_mem_nil
  | cons c cs ih =>
    obtain ⟨hc, hcs⟩ := List.forall_mem_cons.mp hcs
    rw [breakBetween]
    split
    · exact List.forall_mem_cons.mpr ⟨hc, List.forall_mem_cons.mpr ⟨hP.underscore, ih hcs⟩⟩
    · exact List.forall_mem_cons.mpr ⟨hc, ih hcs⟩

/-- Dividing a name into words adds underscores only. -/
theorem forall_breakWords {inWord : Bool} (hcs : ∀ c ∈ cs, P c) :
    ∀ c ∈ breakWords inWord cs, P c := by
  fun_induction breakWords inWord cs with
  | case1 => exact hcs
  | case2 => exact hcs
  | case3 inWord c d cs h ih =>
    obtain ⟨hc, hcs⟩ := List.forall_mem_cons.mp hcs
    exact List.forall_mem_cons.mpr ⟨hc, ih hcs⟩
  | case4 inWord c d cs h h' ih =>
    obtain ⟨hc, hd, hcs⟩ := by simpa only [List.forall_mem_cons] using hcs
    exact List.forall_mem_cons.mpr ⟨hc, List.forall_mem_cons.mpr
      ⟨hP.underscore, List.forall_mem_cons.mpr ⟨hd, ih hcs⟩⟩⟩
  | case5 inWord c d cs h h' ih =>
    obtain ⟨hc, hcs⟩ := List.forall_mem_cons.mp hcs
    exact List.forall_mem_cons.mpr ⟨hc, ih hcs⟩

theorem forall_divided (hname : ∀ c ∈ name, P c) : ∀ c ∈ divided name, P c :=
  forall_breakBetween hP (forall_breakWords hP hname)

/-- The snake-case name has the characters of the name. -/
theorem forall_snake (hname : ∀ c ∈ name, P c) : ∀ c ∈ snake name, P c :=
  hP.lowerAfter (forall_divided hP hname) false

theorem forall_upperSnake (hname : ∀ c ∈ name, P c) : ∀ c ∈ upperSnake name, P c :=
  hP.upper (forall_divided hP hname)

/-! ### Names of members and types -/

/-- A friendly name has the characters of the name. -/
theorem forall_friendly (hname : ∀ c ∈ name, P c) : ∀ c ∈ friendly name front tail, P c := by
  intro c hc
  have hcamel := (withoutRepeated_suffix front (camel name)).mem
    ((isPrefix_withoutSuffix tail _).mem hc)
  exact forall_camel hP hname c hcamel

/-- The friendly name of a member has the characters of the member. -/
theorem forall_memberFriendly {group : List Char} (hname : ∀ c ∈ name, P c) :
    ∀ c ∈ memberFriendly group name tail, P c :=
  forall_friendly hP hname

end Spellable

/-- The name of a type is the end of that of its group. -/
theorem typeName_suffix (group api : List Char) : typeName group api <:+ group := by
  unfold typeName
  split
  case h_1 c rest h =>
    rw [append_of_after? h]
    exact List.suffix_append _ _
  case h_2 => exact List.suffix_rfl

/-- The name of a type is never empty unless that of its group is. -/
theorem typeName_ne_nil {group : List Char} (h : group ≠ []) (api : List Char) :
    typeName group api ≠ [] := by
  unfold typeName
  split
  · exact List.cons_ne_nil _ _
  · exact h

/-- The type of combined flags has a name that is a word if that of the flags is one. -/
theorem isWord_flagsTypeName (h : IsWord name) : IsWord (flagsTypeName name) := by
  have hflags : ∀ c ∈ "Flags".toList, isWordChar c := List.all_eq_true.mp rfl
  unfold flagsTypeName
  split
  · obtain ⟨c, cs, rfl, hc, hcs⟩ := h.exists_cons
    refine ⟨?_, fun d hd => ?_⟩
    · rw [replacedFrom]
      split
      · exact ⟨'F', rfl, by decide⟩
      · exact ⟨c, rfl, hc⟩
    · rcases mem_replacedFrom hd with hd | hd
      · exact hflags d hd
      · exact h.2 d hd
  · exact h.append hflags

/-- A tagged member has a name that is a word, for its tag is one. -/
theorem isWord_taggedMemberName {api tag : List Char} (htag : IsWord (upper tag))
    (hname : ∀ c ∈ name, isWordChar c) : IsWord (taggedMemberName name api tag) := by
  have hrest : ∀ rest, rest <:+ upperSnake name → IsWord (upper tag ++ '_' :: rest) := by
    intro rest hrest
    refine htag.append (List.forall_mem_cons.mpr ⟨by decide, fun c hc => ?_⟩)
    exact forall_upperSnake spellable_isWordChar hname c (hrest.mem hc)
  obtain ⟨c, ds, hcons, -⟩ := htag.exists_cons
  unfold taggedMemberName
  dsimp only
  rw [if_neg (by simp [hcons])]
  refine hrest _ ((List.dropWhile_suffix _).trans ?_)
  split
  · exact List.suffix_rfl
  · cases h : after? (upper api ++ ['_']) (upperSnake name) with
    | none => exact List.suffix_rfl
    | some rest =>
      rw [append_of_after? h]
      exact List.suffix_append _ _

end Naming

end Enumerant
