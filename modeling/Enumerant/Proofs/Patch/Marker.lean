import Enumerant.Patch.Marker
import Enumerant.Proofs.Header.Form
import Enumerant.Proofs.Naming.Characters
import Enumerant.Proofs.Text.Trimming

/-!
# How markers are written

A marker has one meaning and many spellings: blanks may stand between all its parts, its arguments
may be left out or empty, and anything may follow it. `Spelling` is a spelling with all that is free
in it, and `parse?_eq_some_iff_exists_spelling` says that lines are read as markers just if they are
spelled like that, and as the marker that the spelling stands for. The readers of words and of
arguments are inverse to the writers, up to the character that ends the marker or goes on with the
next argument.
-/

namespace Enumerant.Marker

open Text Header

variable {cs w rest : List Char} {n : ℕ} {line : List Char} {m : Marker}

/-! ### Spellings -/

/-- An argument behind its comma: a word, which may be empty, between blanks. -/
structure Argument where
  before : Blanks
  word : List Char
  behind : Blanks
  isWordChar : ∀ c ∈ word, isWordChar c

/-- The text of an argument. -/
def Argument.text (a : Argument) : List Char :=
  ',' :: (a.before.text ++ (a.word ++ a.behind.text))

/-- A line with a marker. Blanks may stand at the `margin`, on both sides of the place for a slash,
and `after` the tag. -/
structure Spelling where
  margin : Blanks
  inside : Blanks
  slash : Bool
  before : Blanks
  tag : List Char
  isWord_tag : IsWord tag
  after : Blanks
  arguments : List Argument
  length_arguments : arguments.length ≤ 2
  behind : List Char

namespace Spelling

/-- The text of a marker from its tag on. -/
def tail (f : Spelling) : List Char :=
  f.tag ++ (f.after.text ++ (f.arguments.flatMap Argument.text ++ '>' :: f.behind))

/-- The text of a line with a marker. -/
def text (f : Spelling) : List Char :=
  f.margin.text ++ ("// Codegen <".toList ++
    (f.inside.text ++ ((if f.slash then ['/'] else []) ++ (f.before.text ++ f.tail))))

/-- The storage type that the first argument names, unless it is left out or empty. -/
def storage (f : Spelling) : Option String :=
  match f.arguments with
  | [] => none
  | a :: _ => if a.word = [] then none else some (String.ofList a.word)

/-- The style that the second argument names. -/
def style (f : Spelling) : Style :=
  match f.arguments with
  | [_, a] => if a.word = ['c'] then .plainEnum else .enumClass
  | _ => .enumClass

/-- What a marker says: with a slash it closes a region, and otherwise it opens one. -/
def marker (f : Spelling) : Marker :=
  if f.slash then closing (String.ofList f.tag)
  else opening (String.ofList f.tag) f.storage f.style

end Spelling

/-! ### Words and arguments -/

/-- What may follow a word of a marker: another argument or the end of the marker. -/
def Ends (rest : List Char) : Prop :=
  ∃ c ∈ rest.head?, c = ',' ∨ c = '>'

theorem Ends.endsRun_isBlank (h : Ends rest) : EndsRun isBlank rest := by
  obtain ⟨c, hc, rfl | rfl⟩ := h <;> intro d hd <;> cases hc.symm.trans hd <;> decide

theorem Ends.endsRun_isWord (h : Ends rest) (b : Blanks) : EndsRun isWord (b.text ++ rest) := by
  intro d hd
  rcases hb : b.text with - | ⟨c, cs⟩
  · obtain ⟨c, hc, rfl | rfl⟩ := h <;> rw [hb] at hd <;> cases hc.symm.trans hd <;> decide
  · have hblank := b.blank c (hb ▸ List.mem_cons_self)
    rw [hb] at hd
    obtain rfl := Option.some.inj hd
    by_contra hword
    rw [not_isBlank_of_isWordChar (Bool.of_not_eq_false hword)] at hblank
    cases hblank

/-- A word is read to its end, and the blanks behind it are passed over. -/
theorem word_append (hw : ∀ c ∈ w, isWordChar c) (b : Blanks) (h : Ends rest) :
    word (w ++ (b.text ++ rest)) = (w, rest) := by
  have htake : (w ++ (b.text ++ rest)).takeWhile isWord = w :=
    takeWhile_append_eq hw (h.endsRun_isWord b)
  have hdrop : (w ++ (b.text ++ rest)).dropWhile isWord = b.text ++ rest :=
    dropWhile_append_eq hw (h.endsRun_isWord b)
  rw [word, htake, hdrop, b.trimLeft_append, trimLeft_of_head? h.endsRun_isBlank]

/-- Blanks in front of a word are passed over as well, be it empty or not. -/
theorem word_trimLeft_append (hw : ∀ c ∈ w, isWordChar c) (b b' : Blanks) (h : Ends rest) :
    word (trimLeft (b.text ++ (w ++ (b'.text ++ rest)))) = (w, rest) := by
  rw [b.trimLeft_append]
  cases w with
  | nil =>
    rw [List.nil_append, b'.trimLeft_append, trimLeft_of_head? h.endsRun_isBlank]
    exact word_append hw ⟨[], List.forall_mem_nil _⟩ h
  | cons c w =>
    have htrim : trimLeft (c :: w ++ (b'.text ++ rest)) = c :: w ++ (b'.text ++ rest) :=
      trimLeft_of_head? fun d hd =>
        Option.some.inj hd ▸ not_isBlank_of_isWordChar (hw c List.mem_cons_self)
    rw [htrim, word_append hw b' h]

theorem exists_of_word (h : word cs = (w, rest)) :
    (∃ b : Blanks, cs = w ++ (b.text ++ rest)) ∧ ∀ c ∈ w, isWordChar c := by
  obtain ⟨rfl, rfl⟩ := Prod.mk.inj h
  obtain ⟨b, hb⟩ := exists_blanks_append (cs.dropWhile isWord)
  refine ⟨⟨b, ?_⟩, fun c hc => List.mem_takeWhile_imp hc⟩
  rw [← hb, List.takeWhile_append_dropWhile]

theorem ends_arguments (as : List Argument) (behind : List Char) :
    Ends (as.flatMap Argument.text ++ '>' :: behind) := by
  cases as with
  | nil => exact ⟨'>', rfl, .inr rfl⟩
  | cons a as => exact ⟨',', rfl, .inl rfl⟩

/-- Arguments are read up to the end of the marker. -/
theorem arguments_append {as : List Argument} (h : as.length ≤ n) (behind : List Char) :
    arguments n (as.flatMap Argument.text ++ '>' :: behind) =
      (as.map Argument.word, '>' :: behind) := by
  induction n generalizing as with
  | zero =>
    obtain rfl := List.eq_nil_of_length_eq_zero (Nat.le_zero.mp h)
    rfl
  | succ n ih =>
    cases as with
    | nil => rfl
    | cons a as =>
      have htext : (a :: as).flatMap Argument.text ++ '>' :: behind = ',' :: (a.before.text ++
          (a.word ++ (a.behind.text ++ (as.flatMap Argument.text ++ '>' :: behind)))) := by
        simp [Argument.text]
      rw [htext, arguments, word_trimLeft_append a.isWordChar _ _ (ends_arguments as behind)]
      dsimp only
      rw [ih (Nat.le_of_succ_le_succ h)]
      rfl

theorem exists_of_arguments {ws : List (List Char)} (h : arguments n cs = (ws, rest)) :
    ∃ as : List Argument, as.length ≤ n ∧ as.map Argument.word = ws ∧
      cs = as.flatMap Argument.text ++ rest := by
  fun_induction arguments n cs generalizing ws rest with
  | case1 cs =>
    cases h
    exact ⟨[], Nat.le_refl 0, rfl, rfl⟩
  | case2 n cs w behind hw ws' behind' hws ih =>
    cases h
    obtain ⟨as, hlength, rfl, rfl⟩ := ih hws
    obtain ⟨b, hb⟩ := exists_blanks_append cs
    obtain ⟨⟨b', hb'⟩, hword⟩ := exists_of_word hw
    refine ⟨⟨b, w, b', hword⟩ :: as, Nat.succ_le_succ hlength, rfl, ?_⟩
    rw [hb, hb']
    simp [Argument.text]
  | case3 n cs hcomma =>
    cases h
    exact ⟨[], Nat.zero_le _, rfl, rfl⟩

/-! ### Tags -/

/-- The marker whose tag stands in front of a text. -/
def fromTag? (closes : Bool) (body : List Char) : Option Marker :=
  let (tag, rest) := word body
  let (arguments, rest) := arguments 2 rest
  match rest with
  | '>' :: _ => if isTag tag then some (ofParts closes tag arguments) else none
  | _ => none

/-- Whether a slash stands in front of a tag, and the text from the tag on. -/
def slashed : List Char → Bool × List Char
  | '/' :: body => (true, trimLeft body)
  | body => (false, body)

theorem slashed_of_ne (h : ∀ body, cs ≠ '/' :: body) : slashed cs = (false, cs) := by
  unfold slashed
  split
  case h_1 body => exact absurd rfl (h body)
  case h_2 => rfl

theorem parse?_of_after? {front : List Char}
    (h : after? "// Codegen <".toList (trimLeft line) = some front) :
    parse? line = fromTag? (slashed (trimLeft front)).1 (slashed (trimLeft front)).2 := by
  rw [parse?, h]
  rfl

theorem isTag_iff (hw : ∀ c ∈ w, isWordChar c) : isTag w ↔ IsWord w := by
  cases w with
  | nil => exact iff_of_false Bool.false_ne_true fun h => by simpa using h.1
  | cons c w => exact ⟨fun hc => ⟨⟨c, rfl, hc⟩, hw⟩, fun ⟨⟨d, hd, hc⟩, _⟩ => by cases hd; exact hc⟩

theorem fromTag?_eq_some_iff {closes : Bool} :
    fromTag? closes cs = some m ↔
      ∃ (tag : List Char) (b : Blanks) (as : List Argument) (behind : List Char),
        IsWord tag ∧ as.length ≤ 2 ∧
          cs = tag ++ (b.text ++ (as.flatMap Argument.text ++ '>' :: behind)) ∧
            m = ofParts closes tag (as.map Argument.word) := by
  constructor
  · intro h
    rcases hword : word cs with ⟨tag, rest⟩
    obtain ⟨⟨b, rfl⟩, htag⟩ := exists_of_word hword
    rcases harguments : arguments 2 rest with ⟨ws, rest'⟩
    obtain ⟨as, hlength, rfl, rfl⟩ := exists_of_arguments harguments
    rw [fromTag?, hword] at h
    dsimp only at h
    rw [harguments] at h
    dsimp only at h
    split at h
    case h_1 behind =>
      obtain ⟨hisTag, hm⟩ := Option.ite_none_right_eq_some.mp h
      exact ⟨tag, b, as, behind, (isTag_iff htag).mp hisTag, hlength, rfl,
        (Option.some.inj hm).symm⟩
    case h_2 => cases h
  · rintro ⟨tag, b, as, behind, htag, hlength, rfl, rfl⟩
    rw [fromTag?, word_append htag.2 b (ends_arguments as behind)]
    dsimp only
    rw [arguments_append hlength]
    exact if_pos ((isTag_iff htag.2).mpr htag)

/-! ### Lines -/

/-- A tag begins with the first character that is no blank. -/
theorem trimLeft_append_of_isWord (hw : IsWord w) (b : Blanks) (cs : List Char) :
    trimLeft (b.text ++ (w ++ cs)) = w ++ cs := by
  obtain ⟨c, ds, rfl, hc, -⟩ := hw.exists_cons
  refine (b.trimLeft_append _).trans (trimLeft_of_head? fun d hd => ?_)
  exact Option.some.inj hd ▸ not_isBlank_of_isWordChar (isWordChar_of_isWordStart hc)

/-- The parts of a marker tell what it says. -/
theorem ofParts_eq (f : Spelling) :
    ofParts f.slash f.tag (f.arguments.map Argument.word) = f.marker := by
  have hlength := f.length_arguments
  unfold ofParts Spelling.marker Spelling.storage Spelling.style
  rcases harguments : f.arguments with - | ⟨a, - | ⟨a', - | ⟨a'', as⟩⟩⟩
  · rfl
  · cases ha : a.word <;> simp [ha]
  · cases ha : a.word <;> simp [ha]
  · simp [harguments] at hlength

theorem fromTag?_tail (f : Spelling) : fromTag? f.slash f.tail = some f.marker :=
  fromTag?_eq_some_iff.mpr ⟨f.tag, f.after, f.arguments, f.behind, f.isWord_tag,
    f.length_arguments, rfl, (ofParts_eq f).symm⟩

/-- **Spellings are read** as the markers that they stand for. -/
theorem parse?_text (f : Spelling) : parse? f.text = some f.marker := by
  have hopening : ∀ cs, trimLeft ("// Codegen <".toList ++ cs) = "// Codegen <".toList ++ cs :=
    fun cs => trimLeft_of_head? fun c hc => by cases hc; decide
  have htail : trimLeft (f.before.text ++ f.tail) = f.tail :=
    trimLeft_append_of_isWord f.isWord_tag f.before _
  have hafter : after? "// Codegen <".toList (trimLeft f.text) =
      some (f.inside.text ++ ((if f.slash then ['/'] else []) ++ (f.before.text ++ f.tail))) := by
    rw [Spelling.text, f.margin.trimLeft_append, hopening, after?_append]
  have hslashed : slashed (trimLeft (f.inside.text ++ ((if f.slash then ['/'] else []) ++
      (f.before.text ++ f.tail)))) = (f.slash, f.tail) := by
    rw [f.inside.trimLeft_append]
    cases f.slash with
    | true => exact congrArg (Prod.mk true) htail
    | false =>
      refine (congrArg slashed htail).trans (slashed_of_ne fun body hbody => ?_)
      obtain ⟨c, ds, hcons, hc, -⟩ := f.isWord_tag.exists_cons
      rw [Spelling.tail, hcons] at hbody
      cases hbody
      exact absurd hc (by decide)
  rw [parse?_of_after? hafter, hslashed, fromTag?_tail]

/-- **What is read as a marker is a spelling** of it. -/
theorem exists_of_parse? (h : parse? line = some m) :
    ∃ f : Spelling, f.text = line ∧ f.marker = m := by
  obtain ⟨margin, hmargin⟩ := exists_blanks_append line
  rcases hafter : after? "// Codegen <".toList (trimLeft line) with - | front
  · rw [parse?, hafter] at h
    cases h
  obtain ⟨inside, hinside⟩ := exists_blanks_append front
  rw [append_of_after? hafter] at hmargin
  -- What is read from the tag on is the same with a slash in front of it and without.
  have hspelling : ∀ (slash : Bool) (before : Blanks) (body : List Char),
      front = inside.text ++ ((if slash then ['/'] else []) ++ (before.text ++ body)) →
        fromTag? slash body = some m → ∃ f : Spelling, f.text = line ∧ f.marker = m := by
    intro slash before body hfront hbody
    obtain ⟨tag, after, as, behind, htag, hlength, rfl, rfl⟩ := fromTag?_eq_some_iff.mp hbody
    let f : Spelling := ⟨margin, inside, slash, before, tag, htag, after, as, hlength, behind⟩
    exact ⟨f, by rw [hmargin, hfront]; rfl, (ofParts_eq f).symm⟩
  rw [parse?_of_after? hafter] at h
  by_cases hslash : ∃ body, trimLeft front = '/' :: body
  · obtain ⟨body, hbody⟩ := hslash
    rw [hbody] at hinside h
    obtain ⟨before, hbefore⟩ := exists_blanks_append body
    refine hspelling true before _ ?_ h
    conv_lhs => rw [hinside, hbefore]
    rfl
  · rw [slashed_of_ne fun body hbody => hslash ⟨body, hbody⟩] at h
    exact hspelling false ⟨[], List.forall_mem_nil _⟩ _ hinside h

/-- **Markers are what is spelled like them.** A line is read as a marker exactly if it is one of
the spellings of that marker, whatever blanks stand in it and whatever follows. -/
theorem parse?_eq_some_iff_exists_spelling (line : List Char) (m : Marker) :
    parse? line = some m ↔ ∃ f : Spelling, f.text = line ∧ f.marker = m := by
  constructor
  · exact exists_of_parse?
  · rintro ⟨f, rfl, rfl⟩
    exact parse?_text f

end Enumerant.Marker
