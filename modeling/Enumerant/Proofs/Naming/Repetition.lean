import Mathlib.Data.Char
import Mathlib.Data.List.Basic
import Enumerant.Naming.Member
import Enumerant.Proofs.Naming.Dimension
import Enumerant.Proofs.Text.Letters
import Enumerant.Proofs.Text.Offset
import Enumerant.Proofs.Text.Part

/-!
# Members that repeat their group

Groups are named by capitalized words, and their members begin with the same words in upper case.
The two spellings determine each other (`upperSnake_camelText_append`, `camel_snakeText`): of the
words behind the first, every other one is broken off for the small letters behind its capital, and
the breaks that this leaves out are put where a small letter meets a capital. So the part of a
member that repeats its group is found at its full length, with or without the mark of single flags
and the number of their generation in the name of the group, and what is left is named as if it
stood alone (`memberFriendly_snakeText`).
-/

namespace Enumerant.Naming

open Text

variable {c d : Char} {cs ds : List Char}

/-! ### Where names are broken -/

section BreakBetween

variable {left right : Char → Bool}

/-- Nothing is put into a text in front of which a character of the second kind does not begin. -/
theorem breakBetween_append (hcs : ∀ c ∈ cs, right c = false) (hds : ds.head?.any right = false) :
    breakBetween left right (cs ++ ds) = cs ++ breakBetween left right ds := by
  induction cs with
  | nil => rfl
  | cons c cs ih =>
    obtain ⟨-, hcs⟩ := List.forall_mem_cons.mp hcs
    have hhead : (cs ++ ds).head?.any right = false := by
      cases cs with
      | nil => exact hds
      | cons b cs => exact hcs b List.mem_cons_self
    rw [List.cons_append, breakBetween, if_neg fun h => Bool.false_ne_true (hhead.symm.trans h.2),
      ih hcs, List.cons_append]

/-- Where two characters meet that are to be kept apart, an underscore is put between them. -/
theorem breakBetween_append_of_left (hcs : ∀ c ∈ cs, right c = false)
    (hlast : cs.getLast?.any left) (hd : right d) :
    breakBetween left right (cs ++ d :: ds) = cs ++ '_' :: breakBetween left right (d :: ds) := by
  induction cs with
  | nil => cases hlast
  | cons c cs ih =>
    obtain ⟨-, hcs⟩ := List.forall_mem_cons.mp hcs
    cases cs with
    | nil => rw [List.singleton_append, breakBetween, if_pos ⟨hlast, hd⟩, List.singleton_append]
    | cons b cs =>
      have hb := hcs b List.mem_cons_self
      rw [List.getLast?_cons_cons] at hlast
      have hhead : (b :: cs ++ d :: ds).head?.any right = false := hb
      rw [List.cons_append, breakBetween, if_neg fun h => Bool.false_ne_true (hhead.symm.trans h.2),
        ih hcs hlast]
      rfl

theorem breakBetween_cons_of_not_left (hc : left c = false) :
    breakBetween left right (c :: cs) = c :: breakBetween left right cs := by
  rw [breakBetween, if_neg (by simp [hc])]

/-- No word begins where the second character never occurs. -/
theorem breakBetween_eq_self (hcs : ∀ c ∈ cs, right c = false) :
    breakBetween left right cs = cs := by
  have happend : breakBetween left right (cs ++ []) = cs ++ breakBetween left right [] :=
    breakBetween_append hcs rfl
  rwa [List.append_nil, breakBetween, List.append_nil] at happend

end BreakBetween

/-- Without capitals nothing is broken. -/
theorem breakWords_eq_self (inWord : Bool) (hcs : ∀ c ∈ cs, c.isUpper = false) :
    breakWords inWord cs = cs := by
  fun_induction breakWords inWord cs with
  | case1 => rfl
  | case2 => rfl
  | case3 inWord c d cs h ih => rw [ih (List.forall_mem_cons.mp hcs).2]
  | case4 inWord c d cs h h' ih => simp [hcs d] at h'
  | case5 inWord c d cs h h' ih => rw [ih (List.forall_mem_cons.mp hcs).2]

/-- Where small letters end and a word begins, a break is put unless the letters belong to a word
that has been broken off in front itself. -/
theorem breakWords_append {inWord : Bool} (hne : cs ≠ []) (hcs : ∀ c ∈ cs, c.isLower)
    (hc : c.isUpper) (hd : d.isLower) : breakWords inWord (cs ++ c :: d :: ds) =
      cs ++ ((if inWord then [] else ['_']) ++ c :: breakWords (!inWord) (d :: ds)) := by
  induction cs with
  | nil => exact absurd rfl hne
  | cons a cs ih =>
    obtain ⟨ha, hcs⟩ := List.forall_mem_cons.mp hcs
    have hunderscore : a ≠ '_' := by
      rintro rfl
      exact absurd ha (by decide)
    cases cs with
    | nil =>
      cases inWord with
      | false => simp [breakWords, hunderscore, hc, hd]
      | true =>
        simp [breakWords, ha, isLower_eq_false_of_isUpper hc, isUpper_eq_false_of_isLower hd]
    | cons b cs =>
      have hb := isUpper_eq_false_of_isLower (hcs b List.mem_cons_self)
      have hrest := ih (List.cons_ne_nil b cs) hcs
      rw [List.cons_append] at hrest
      cases inWord with
      | false => simp [breakWords, hb, hrest]
      | true => simp [breakWords, ha, hrest]

/-! ### Capitalized words -/

/-- Behind a letter capitals become small. -/
theorem titleAfter_of_isUpper (hcs : ∀ c ∈ cs, c.isUpper) :
    titleAfter true cs = cs.map Char.toLower := by
  induction cs with
  | nil => rfl
  | cons c cs ih =>
    obtain ⟨hc, hcs⟩ := List.forall_mem_cons.mp hcs
    rw [titleAfter, if_pos (isAlphabetic_of_isUpper hc), if_pos rfl, lowerChar,
      if_pos (lt_of_isUpper hc), ih hcs, List.singleton_append, List.map_cons]

/-- A capital with small letters behind it. -/
structure CapitalWord where
  /-- The capital. -/
  capital : Char
  /-- The small letters. -/
  letters : List Char
  isUpper_capital : capital.isUpper
  letters_ne_nil : letters ≠ []
  isLower_letters : ∀ c ∈ letters, c.isLower

namespace CapitalWord

variable (w : CapitalWord)

/-- The characters of a word. -/
def text : List Char :=
  w.capital :: w.letters

/-- A capital word has a small letter behind its capital. -/
theorem exists_letters : ∃ l ls, w.letters = l :: ls ∧ l.isLower := by
  obtain ⟨l, ls, h⟩ := List.exists_cons_of_ne_nil w.letters_ne_nil
  exact ⟨l, ls, h, w.isLower_letters l (h ▸ List.mem_cons_self)⟩

/-- Behind a capital itself nothing is broken off. -/
theorem not_left_capital : (w.capital.isLower || w.capital.isDigit) = false := by
  rw [isLower_eq_false_of_isUpper w.isUpper_capital, isDigit_eq_false_of_isUpper w.isUpper_capital,
    Bool.or_false]

/-- In capitals a word keeps its first letter. -/
theorem upper_text : upper w.text = w.capital :: w.letters.map Char.toUpper := by
  rw [text, upper_cons, upperChar_of_isUpper w.isUpper_capital, upper_of_isLower w.isLower_letters,
    List.singleton_append]

theorem isUpper_of_mem_upper_text (hc : c ∈ upper w.text) : c.isUpper := by
  rw [upper_text] at hc
  rcases List.mem_cons.mp hc with rfl | hc
  · exact w.isUpper_capital
  · obtain ⟨d, hd, rfl⟩ := List.mem_map.mp hc
    exact isUpper_toUpper (w.isLower_letters d hd)

/-- There are no digits in a word. -/
theorem not_isDigit_of_mem_text (hc : c ∈ w.text) : c.isDigit = false := by
  rcases List.mem_cons.mp hc with rfl | hc
  · exact isDigit_eq_false_of_isUpper w.isUpper_capital
  · exact isDigit_eq_false_of_isLower (w.isLower_letters c hc)

/-- A word that has been put into upper case is put back into title case. -/
theorem camelWord_upper_text : camelWord (upper w.text) = w.text := by
  have hsmall : ¬ (upper w.text).any isLowercase := by
    rw [Bool.not_eq_true, List.any_eq_false]
    intro c hc
    have hupper := w.isUpper_of_mem_upper_text hc
    rw [isLowercase_eq_false_of_isUpper hupper]
    exact Bool.false_ne_true
  have hletters : ∀ c ∈ w.letters.map Char.toUpper, c.isUpper := by
    intro c hc
    obtain ⟨d, hd, rfl⟩ := List.mem_map.mp hc
    exact isUpper_toUpper (w.isLower_letters d hd)
  have hback : (w.letters.map Char.toUpper).map Char.toLower = w.letters := by
    rw [List.map_map]
    exact (List.map_congr_left fun c hc => toLower_toUpper (w.isLower_letters c hc)).trans
      (List.map_id _)
  rw [camelWord, if_neg hsmall, title, upper_text, titleAfter,
    if_pos (isAlphabetic_of_isUpper w.isUpper_capital),
    if_neg Bool.false_ne_true, upperChar_of_isUpper w.isUpper_capital,
    titleAfter_of_isUpper hletters, hback, text, List.singleton_append]

end CapitalWord

/-- Words put together: the camel-case name they make up. -/
def camelText (ws : List CapitalWord) : List Char :=
  ws.flatMap CapitalWord.text

/-- Words in upper case with underscores between them. -/
def snakeText (ws : List CapitalWord) : List Char :=
  ['_'].intercalate (ws.map fun w => upper w.text)

variable {w : CapitalWord} {ws : List CapitalWord}

theorem snakeText_cons_cons (w v : CapitalWord) (ws : List CapitalWord) :
    snakeText (w :: v :: ws) = upper w.text ++ ['_'] ++ snakeText (v :: ws) :=
  List.intercalate_cons_cons

/-- In snake case every word but the first has an underscore in front. -/
theorem snakeText_cons (w : CapitalWord) (ws : List CapitalWord) :
    snakeText (w :: ws) = upper w.text ++ ws.flatMap fun v => '_' :: upper v.text := by
  induction ws generalizing w with
  | nil => simp [snakeText]
  | cons v ws ih =>
    rw [snakeText_cons_cons, ih v, List.flatMap_cons]
    simp

/-- In camel case a word begins with its capital and a small letter. -/
theorem camelText_cons_append {l : Char} {ls : List Char} (h : w.letters = l :: ls) :
    camelText (w :: ws) ++ ds = w.capital :: l :: (ls ++ (camelText ws ++ ds)) := by
  simp [camelText, CapitalWord.text, h]

theorem camelText_ne_nil (hne : ws ≠ []) : camelText ws ≠ [] := by
  obtain ⟨w, ws, rfl⟩ := List.exists_cons_of_ne_nil hne
  exact List.cons_ne_nil _ _

theorem not_isDigit_of_mem_camelText (hc : c ∈ camelText ws) : c.isDigit = false := by
  obtain ⟨w, -, hc⟩ := List.mem_flatMap.mp hc
  exact w.not_isDigit_of_mem_text hc

/-- Words in upper case consist of capitals and underscores. -/
theorem isUpper_of_mem_snakeText (hc : c ∈ snakeText ws) : c.isUpper ∨ c = '_' := by
  refine forall_mem_intercalate (P := fun c => c.isUpper ∨ c = '_') (by simp) ?_ c hc
  intro cs hcs c hc
  obtain ⟨w, -, rfl⟩ := List.mem_map.mp hcs
  exact .inl (w.isUpper_of_mem_upper_text hc)

/-- Snake case is all capitals already. -/
theorem upper_snakeText : upper (snakeText ws) = snakeText ws := by
  refine upper_eq_self fun c hc => ?_
  rcases isUpper_of_mem_snakeText hc with hc | rfl
  · exact upperChar_of_isUpper hc
  · exact upperChar_underscore

theorem not_isDigit_of_mem_snakeText (hc : c ∈ snakeText ws) : c.isDigit = false := by
  rcases isUpper_of_mem_snakeText hc with hc | rfl
  · exact isDigit_eq_false_of_isUpper hc
  · decide

/-- Snake case ends with a capital. -/
theorem getLast?_snakeText (hne : ws ≠ []) : (snakeText ws).getLast?.any Char.isUpper := by
  induction ws with
  | nil => exact absurd rfl hne
  | cons w ws ih =>
    cases ws with
    | nil =>
      have hnil : upper w.text ≠ [] := by
        rw [w.upper_text]
        exact List.cons_ne_nil _ _
      rw [snakeText, List.map_singleton, List.intercalate_singleton,
        List.getLast?_eq_some_getLast hnil]
      exact w.isUpper_of_mem_upper_text (List.getLast_mem hnil)
    | cons v ws =>
      obtain ⟨c, hc, hupper⟩ := Option.any_eq_true _ _ |>.mp (ih (List.cons_ne_nil v ws))
      rw [snakeText_cons_cons, List.getLast?_append, hc]
      exact hupper

/-! ### From one spelling to the other -/

/-- What the first division leaves out before a capital is put there by the second. -/
theorem breakBetween_append_capital (inWord : Bool) (hne : cs ≠ []) (hcs : ∀ c ∈ cs, c.isLower)
    (w : CapitalWord) (ds : List Char) :
    breakBetween (fun c => c.isLower || c.isDigit) Char.isUpper
        (cs ++ ((if inWord then [] else ['_']) ++ w.capital :: ds)) =
      cs ++ '_' :: w.capital ::
        breakBetween (fun c => c.isLower || c.isDigit) Char.isUpper ds := by
  have hsmall : ∀ c ∈ cs, c.isUpper = false := fun c hc => isUpper_eq_false_of_isLower (hcs c hc)
  cases inWord with
  | false =>
    rw [breakBetween_append hsmall (by rfl)]
    exact congrArg (cs ++ '_' :: ·) (breakBetween_cons_of_not_left w.not_left_capital)
  | true =>
    have hlast : cs.getLast?.any fun c => c.isLower || c.isDigit := by
      rw [List.getLast?_eq_some_getLast hne]
      simp [hcs _ (List.getLast_mem hne)]
    rw [if_pos rfl, List.nil_append, breakBetween_append_of_left hsmall hlast w.isUpper_capital,
      breakBetween_cons_of_not_left w.not_left_capital]

/-- Behind the first word each word is broken off, by one of the two kinds of breaks. -/
theorem breaks_letters (inWord : Bool) (hne : cs ≠ []) (hcs : ∀ c ∈ cs, c.isLower)
    (ws : List CapitalWord) (hds : ∀ d ∈ ds, d.isDigit) :
    breakBetween (fun c => c.isLower || c.isDigit) Char.isUpper
        (breakWords inWord (cs ++ (camelText ws ++ ds))) =
      cs ++ ((ws.flatMap fun w => '_' :: w.text) ++ ds) := by
  -- Whether a word is broken off as one of its own changes from each word to the next.
  induction ws generalizing inWord cs with
  | nil =>
    have hall : ∀ c ∈ cs ++ ds, c.isUpper = false :=
      List.forall_mem_append.mpr ⟨fun c hc => isUpper_eq_false_of_isLower (hcs c hc),
        fun d hd => isUpper_eq_false_of_isDigit (hds d hd)⟩
    simp [camelText, breakWords_eq_self inWord hall, breakBetween_eq_self hall]
  | cons w ws ih =>
    obtain ⟨l, ls, hletters, hl⟩ := w.exists_letters
    rw [camelText_cons_append hletters, breakWords_append hne hcs w.isUpper_capital hl,
      breakBetween_append_capital inWord hne hcs w, ← List.cons_append, ← hletters,
      ih (!inWord) w.letters_ne_nil w.isLower_letters]
    simp [CapitalWord.text]

/-- Camel case is divided where its words begin, but not in front of digits. -/
theorem divided_camelText (w : CapitalWord) (ws : List CapitalWord) (hds : ∀ d ∈ ds, d.isDigit) :
    divided (camelText (w :: ws) ++ ds) =
      w.text ++ ((ws.flatMap fun v => '_' :: v.text) ++ ds) := by
  obtain ⟨l, ls, hletters, hl⟩ := w.exists_letters
  have hfirst : breakWords false (w.capital :: l :: (ls ++ (camelText ws ++ ds))) =
      w.capital :: breakWords false (w.letters ++ (camelText ws ++ ds)) := by
    simp [breakWords, isUpper_eq_false_of_isLower hl, hletters]
  rw [camelText_cons_append hletters, divided, hfirst,
    breakBetween_cons_of_not_left w.not_left_capital,
    breaks_letters false w.letters_ne_nil w.isLower_letters ws hds, CapitalWord.text]
  rfl

/-- Words in upper snake case, also with a number behind the last of them. -/
theorem upperSnake_camelText_append (hne : ws ≠ []) (hds : ∀ d ∈ ds, d.isDigit) :
    upperSnake (camelText ws ++ ds) = snakeText ws ++ ds := by
  obtain ⟨w, ws, rfl⟩ := List.exists_cons_of_ne_nil hne
  have hupper : upper ds = ds := upper_eq_self fun d hd => upperChar_of_isDigit (hds d hd)
  have hwords : upper (ws.flatMap fun v => '_' :: v.text) =
      ws.flatMap fun v => '_' :: upper v.text := by
    rw [upper, List.flatMap_assoc]
    rfl
  rw [upperSnake, divided_camelText w ws hds, upper_append, upper_append, hupper, hwords,
    snakeText_cons, List.append_assoc]

/-- The fields of snake case are its words. -/
theorem fields_snakeText (hne : ws ≠ []) :
    fields (· == '_') (snakeText ws) = ws.map fun w => upper w.text := by
  rw [fields_eq_splitOnP]
  refine List.splitOn_intercalate '_' ?_ (by simpa using hne)
  intro cs hcs hmem
  obtain ⟨w, -, rfl⟩ := List.mem_map.mp hcs
  exact absurd (w.isUpper_of_mem_upper_text hmem) (by decide)

/-- An underscore separates the fields in front of it from those behind. -/
theorem fields_append_cons (cs ds : List Char) :
    fields (· == '_') (cs ++ '_' :: ds) = fields (· == '_') cs ++ fields (· == '_') ds := by
  rw [fields_eq_splitOnP, fields_eq_splitOnP, fields_eq_splitOnP]
  exact List.splitOn_append_cons_self cs ds

/-- Words are the same in either case. -/
theorem camelWords_snakeText (hne : ws ≠ []) : camelWords (snakeText ws) = camelText ws := by
  rw [camelWords, fields_snakeText hne, List.flatMap_map, camelText]
  exact List.flatMap_congr fun w _ => w.camelWord_upper_text

/-- Words on both sides of an underscore are named one after another. -/
theorem camelWords_append_cons (cs ds : List Char) :
    camelWords (cs ++ '_' :: ds) = camelWords cs ++ camelWords ds := by
  rw [camelWords, fields_append_cons, List.flatMap_append, camelWords, camelWords]

/-- Words in upper case are the words of a camel-case name again, whatever follows them. -/
theorem camel_snakeText_append (hne : ws ≠ []) (ds : List Char) :
    camel (snakeText ws ++ '_' :: ds) = camelText ws ++ camel ds := by
  have hwords := camelWords_append_cons (snakeText ws) ds
  rw [camelWords_snakeText hne] at hwords
  rw [camel, ← camelWords, hwords, lowerDimensions_append fun c => not_isDigit_of_mem_camelText]
  rfl

/-- The camel-case name of snake case is that of its words. -/
theorem camel_snakeText (hne : ws ≠ []) : camel (snakeText ws) = camelText ws := by
  have hall : ∀ c ∈ camelText ws, c.isDigit = false := fun c => not_isDigit_of_mem_camelText
  have happend := lowerDimensions_append hall []
  rw [List.append_nil] at happend
  rw [camel, ← camelWords, camelWords_snakeText hne, happend, lowerDimensions, List.append_nil]

/-- The number of a generation belongs to no dimension unless a sign follows it. -/
theorem camel_two_append (h : ¬ SignAhead (camel cs)) :
    camel ('2' :: '_' :: cs) = '2' :: camel cs := by
  have htwo : camelWords ['2'] = ['2'] := by decide +kernel
  have hwords := camelWords_append_cons ['2'] cs
  rw [htwo, List.singleton_append, List.singleton_append] at hwords
  have hahead : ¬ SignAhead (camelWords cs) :=
    fun hahead => h (signAhead_lowerDimensions_iff.mpr ⟨nofun, hahead⟩)
  rw [camel, ← camelWords, hwords, lowerDimensions_digit (by decide)]
  exact congrArg ('2' :: ·) (lowerDimensions_first_eq hahead)

/-! ### The repeated part of a member -/

/-- A text has all its words in common with what goes on behind it. -/
theorem commonWords_append (cs ds : List Char) : commonWords cs (cs ++ ds) = cs := by
  rw [commonWords, commonPrefix_append, if_pos rfl]

/-- What two names have in common is a front of the first. -/
theorem commonWords_isPrefix (cs ds : List Char) : commonWords cs ds <+: cs := by
  unfold commonWords
  dsimp only
  split
  · exact commonPrefix_isPrefix cs ds
  · refine .trans ?_ (commonPrefix_isPrefix cs ds)
    rw [← List.reverse_suffix, List.reverse_reverse]
    exact List.dropWhile_suffix _

/-- The redundant part of a member is taken off its name. -/
theorem memberFriendly_of_redundantLength {group member front tail : List Char}
    (hfront : front <+: member) (h : redundantLength group member = byteLength front) :
    memberFriendly group member tail = friendly member (camel front) tail := by
  obtain ⟨rest, rfl⟩ := hfront
  rw [memberFriendly, h, splitAt?_byteLength]

/-- A name with something in front is shortened to the name without it. -/
theorem friendly_of_camel {name front rest tail : List Char} (hne : front ≠ [])
    (h : camel name = front ++ camel rest) :
    friendly name front tail = friendly rest front tail := by
  rw [friendly, h, withoutRepeated_append hne, friendly]

section Group

variable {group rest tail : List Char} (hne : ws ≠ [])

include hne

/-- A member that goes on behind the words of its group repeats them and the underscore. -/
theorem redundantLength_eq (hgroup : valuePrefix group = camelText ws) :
    redundantLength group (snakeText ws ++ '_' :: rest) = byteLength (snakeText ws ++ ['_']) := by
  have hname := upperSnake_camelText_append hne (List.forall_mem_nil fun d => Char.isDigit d)
  rw [List.append_nil, List.append_nil] at hname
  have hspaced : breakBetween Char.isUpper Char.isDigit (snakeText ws) = snakeText ws :=
    breakBetween_eq_self fun c => not_isDigit_of_mem_snakeText
  have hmember : upper (snakeText ws ++ '_' :: rest) = (snakeText ws ++ ['_']) ++ upper rest := by
    rw [upper_append, upper_snakeText, upper_cons, upperChar_underscore, List.append_assoc]
  rw [redundantLength, hgroup, hname, hspaced, hmember, commonWords_append, max_self]

/-- A member of the second generation repeats the number with an underscore in front of it. -/
theorem redundantLength_two_eq (hgroup : valuePrefix group = camelText ws ++ ['2']) :
    redundantLength group (snakeText ws ++ '_' :: '2' :: '_' :: rest) =
      byteLength (snakeText ws ++ ['_', '2', '_']) := by
  have hname : upperSnake (camelText ws ++ ['2']) = snakeText ws ++ ['2'] :=
    upperSnake_camelText_append hne (List.forall_mem_singleton.mpr rfl)
  have hspaced : breakBetween Char.isUpper Char.isDigit (snakeText ws ++ ['2']) =
      snakeText ws ++ ['_', '2'] :=
    breakBetween_append_of_left (fun c => not_isDigit_of_mem_snakeText) (getLast?_snakeText hne) rfl
  have hmember : upper (snakeText ws ++ '_' :: '2' :: '_' :: rest) =
      (snakeText ws ++ ['_', '2'] ++ ['_']) ++ upper rest := by
    have htwo : upperChar '2' = ['2'] := upperChar_of_isDigit rfl
    rw [upper_append, upper_snakeText, upper_cons, upper_cons, upper_cons, upperChar_underscore,
      htwo]
    simp
  -- The name without a break before the number is not repeated beyond its own length.
  have hunspaced : byteLength (commonWords (snakeText ws ++ ['2'] ++ ['_'])
      (snakeText ws ++ ['_', '2'] ++ ['_'] ++ upper rest)) ≤
        byteLength (snakeText ws ++ ['_', '2'] ++ ['_']) := by
    refine (byteLength_le_of_isPrefix (commonWords_isPrefix _ _)).trans ?_
    simp only [byteLength_append, byteLength]
    omega
  rw [redundantLength, hgroup, hname, hspaced, hmember, commonWords_append, max_eq_right hunspaced]
  simp

/-- Behind the words of its group a member is named as if it stood alone. -/
theorem memberFriendly_eq (hgroup : valuePrefix group = camelText ws) :
    memberFriendly group (snakeText ws ++ '_' :: rest) tail =
      friendly rest (camelText ws) tail := by
  have hfront : camel (snakeText ws ++ ['_']) = camelText ws := by
    rw [camel_snakeText_append hne]
    exact List.append_nil _
  rw [memberFriendly_of_redundantLength ⟨rest, by simp⟩ (redundantLength_eq hne hgroup), hfront]
  exact friendly_of_camel (camelText_ne_nil hne) (camel_snakeText_append hne rest)

/-- The same for members of the second generation, which repeat its number too. -/
theorem memberFriendly_two_eq (hgroup : valuePrefix group = camelText ws ++ ['2'])
    (hrest : ¬ SignAhead (camel rest)) :
    memberFriendly group (snakeText ws ++ '_' :: '2' :: '_' :: rest) tail =
      friendly rest (camelText ws ++ ['2']) tail := by
  have hfront : camel (snakeText ws ++ ['_', '2', '_']) = camelText ws ++ ['2'] := by
    have htwo : camel ['2', '_'] = ['2'] := by decide +kernel
    rw [camel_snakeText_append hne, htwo]
  have hname : camel (snakeText ws ++ '_' :: '2' :: '_' :: rest) =
      (camelText ws ++ ['2']) ++ camel rest := by
    rw [camel_snakeText_append hne, camel_two_append hrest, List.append_assoc,
      List.singleton_append]
  rw [memberFriendly_of_redundantLength ⟨rest, by simp⟩ (redundantLength_two_eq hne hgroup), hfront]
  exact friendly_of_camel (by simp) hname

end Group

/-! ### The words of a group -/

/-- Without the number of a generation in it, a name ends where its mark of single flags begins. -/
theorem valuePrefix_eq {group : List Char} (hgroup : upTo flagBits group = camelText ws)
    (htwo : '2' ∉ group) : valuePrefix group = camelText ws := by
  have hnot : ¬ contains (flagBits ++ ['2']) group := by
    rw [contains_iff]
    exact fun hpart => htwo (hpart.mem (by simp))
  rw [valuePrefix, hgroup, if_neg hnot, List.append_nil]

section Prefix

variable {vendor : List Char} (hflags : ¬ flagBits <:+: camelText ws)

include hflags

/-- The words of a group of flags are those in front of the mark. -/
theorem upTo_flagBits (rest : List Char) :
    upTo flagBits (camelText ws ++ flagBits ++ rest) = camelText ws := by
  have hpart : upTo ('F' :: "lagBits".toList)
      (camelText ws ++ 'F' :: ("lagBits".toList ++ rest)) = camelText ws :=
    upTo_append (by decide) hflags rest
  rw [List.append_assoc]
  exact hpart

/-- A second generation of flags has its number in the prefix of values. -/
theorem valuePrefix_two_eq : valuePrefix (camelText ws ++ flagBits ++ '2' :: vendor) =
    camelText ws ++ ['2'] := by
  have hcontains : contains (flagBits ++ ['2']) (camelText ws ++ flagBits ++ '2' :: vendor) :=
    contains_iff.mpr ⟨camelText ws, vendor, by simp⟩
  rw [valuePrefix, upTo_flagBits hflags, if_pos hcontains]

end Prefix

/-- **Names within a group.** The two spellings of words determine each other; a member that goes on
behind the words of its group is named as what follows them, whatever stands behind the mark of
single flags in the name of the group. With the second generation of flags the number counts as a
part of what is repeated, unless it is taken for the first factor of a dimension. -/
theorem memberFriendly_snakeText {vendor : List Char} (hne : ws ≠ [])
    (hflags : ¬ flagBits <:+: camelText ws) (hvendor : ∀ c ∈ vendor, c.isUpper)
    (rest tail : List Char) :
    (upperSnake (camelText ws) = snakeText ws ∧ camel (snakeText ws) = camelText ws) ∧
      (∀ group ∈ [camelText ws, camelText ws ++ flagBits ++ vendor],
        memberFriendly group (snakeText ws ++ '_' :: rest) tail =
          friendly rest (camelText ws) tail) ∧
      (¬ SignAhead (camel rest) →
        memberFriendly (camelText ws ++ flagBits ++ '2' :: vendor)
            (snakeText ws ++ '_' :: '2' :: '_' :: rest) tail =
          friendly rest (camelText ws ++ ['2']) tail) := by
  have hwords : '2' ∉ camelText ws := fun hmem =>
    absurd (not_isDigit_of_mem_camelText hmem) (by decide)
  have hmarked : '2' ∉ camelText ws ++ flagBits ++ vendor := by
    simp only [List.mem_append, not_or]
    exact ⟨⟨hwords, by decide⟩, fun hmem => absurd (hvendor _ hmem) (by decide)⟩
  have hname := upperSnake_camelText_append hne (List.forall_mem_nil fun d => Char.isDigit d)
  rw [List.append_nil, List.append_nil] at hname
  refine ⟨⟨hname, camel_snakeText hne⟩, ?_, fun hrest =>
    memberFriendly_two_eq hne (valuePrefix_two_eq hflags) hrest⟩
  intro group hgroup
  refine memberFriendly_eq hne ?_
  rcases List.mem_pair.mp hgroup with rfl | rfl
  · exact valuePrefix_eq (upTo_eq_self hflags) hwords
  · exact valuePrefix_eq (upTo_flagBits hflags vendor) hmarked

/-- Accesses of both generations, with a vendor behind the mark of single flags. -/
theorem memberFriendly_shaderRead :
    memberFriendly "VkAccessFlagBitsKHR".toList "VK_ACCESS_SHADER_READ_BIT".toList "Bit".toList =
        "ShaderRead".toList ∧
      memberFriendly "VkAccessFlagBits2KHR".toList "VK_ACCESS_2_SHADER_READ_BIT".toList
          "Bit".toList =
        "ShaderRead".toList := by
  have hwords := @memberFriendly_snakeText
    [⟨'V', ['k'], by decide, by decide, List.all_eq_true.mp (by decide)⟩,
      ⟨'A', ['c', 'c', 'e', 's', 's'], by decide, by decide, List.all_eq_true.mp (by decide)⟩]
    "KHR".toList (by simp) (contains_iff.not.mp (by decide)) (List.all_eq_true.mp (by decide))
    "SHADER_READ_BIT".toList "Bit".toList
  have hrest : ¬ SignAhead (camel "SHADER_READ_BIT".toList) := by
    have hcamel : camel "SHADER_READ_BIT".toList = 'S' :: "haderReadBit".toList := by
      decide +kernel
    rw [hcamel, signAhead_cons_iff]
    exact fun h => absurd h.1 (by decide)
  constructor
  · refine Eq.trans ?_ ((hwords.2.1 _ (List.mem_pair.mpr (.inr rfl))).trans ?_)
    · decide +kernel
    · decide +kernel
  · refine Eq.trans ?_ ((hwords.2.2 hrest).trans ?_)
    · decide +kernel
    · decide +kernel

end Enumerant.Naming
