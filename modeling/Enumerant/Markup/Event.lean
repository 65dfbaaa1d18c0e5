import Enumerant.Markup.Attribute
import Enumerant.Text.Part

/-!
# Events of XML text

A document is a sequence of tags and texts. Comments, character data sections, instructions and type
declarations are passed over. Reading stops at the first place that is not well formed: a construct
that does not end, or an end tag whose name is not that of the innermost open element.
-/

namespace Enumerant.Markup

open Text (after?)

/-- A start tag or an empty tag, its attributes not yet read. -/
structure Tag where
  name : String
  attributes : List Char
  isEmpty : Bool
  deriving DecidableEq, Repr

/-- What comes next in a document. -/
inductive Event where
  | opening (tag : Tag)
  | closing (name : String)
  /-- Text without the blanks at its ends, its references not yet replaced. -/
  | text (raw : List Char)
  deriving DecidableEq, Repr

/-- How a document ends. -/
inductive Ending where
  | complete
  | unclosed
  | malformed
  deriving DecidableEq, Repr

/-! ### Constructs -/

/-- The text before the first occurrence of another, and what follows it. -/
def splitAtText? (mark : List Char) : List Char → Option (List Char × List Char)
  | [] => none
  | c :: cs =>
    match after? mark (c :: cs) with
    | some rest => some ([], rest)
    | none => (splitAtText? mark cs).map fun (front, rest) => (c :: front, rest)

/-- The content of a tag up to the first `>` outside quotes, and what follows it. -/
def tagContent? (quote : Option Char) : List Char → Option (List Char × List Char)
  | [] => none
  | c :: cs =>
    match quote with
    | some q =>
      (tagContent? (if c = q then none else quote) cs).map fun (front, rest) => (c :: front, rest)
    | none =>
      if c = '>' then some ([], cs)
      else
        (tagContent? (if c.toNat = 0x22 ∨ c.toNat = 0x27 then some c else none) cs).map
          fun (front, rest) => (c :: front, rest)

/-- The content of a type declaration up to the `>` that no `<` in it has opened, and what follows.
-/
def declaration? (depth : Nat) : List Char → Option (List Char × List Char)
  | [] => none
  | c :: cs =>
    if c = '>' ∧ depth = 0 then some ([], cs)
    else
      let depth := if c = '<' then depth + 1 else if c = '>' then depth - 1 else depth
      (declaration? depth cs).map fun (front, rest) => (c :: front, rest)

/-- Whether the front of a text is a word in upper or lower case. -/
def startsWithWord (word cs : List Char) : Bool :=
  (cs.take word.length).map Char.toUpper == word

/-- What follows the construct that `<!` opens: a comment, a character data section or a type
declaration. -/
def afterBang? (cs : List Char) : Option (List Char) :=
  match cs with
  | '-' :: '-' :: cs => (splitAtText? "-->".toList cs).map Prod.snd
  | '[' :: _ =>
    if cs.take 7 = "[CDATA[".toList then
      (splitAtText? "]]>".toList (cs.drop 7)).map Prod.snd
    else none
  | _ =>
    if startsWithWord "DOCTYPE".toList cs then
      match declaration? 0 (cs.drop 7) with
      | some (content, rest) => if content.all isSpace then none else some rest
      | none => none
    else none

/-- What follows the instruction that `<?` opens; its two question marks are not one. -/
def afterInstruction? (cs : List Char) : Option (List Char) :=
  if cs.head? = some '>' then none else (splitAtText? "?>".toList cs).map Prod.snd

/-- The tag with the given content. -/
def Tag.ofContent (content : List Char) : Tag :=
  let isEmpty := content.getLast? = some '/'
  let content := if isEmpty then content.dropLast else content
  let name := content.takeWhile (!isSpace ·)
  ⟨String.ofList name, content.drop name.length, isEmpty⟩

/-- The name in the content of an end tag; blanks behind it do not count. -/
def endName (content : List Char) : String :=
  let name := (content.reverse.dropWhile isSpace).reverse
  String.ofList (if name.isEmpty then content else name)

/-- A step of reading: an event or nothing, the names of the elements open afterwards, and the rest.
-/
structure Step where
  event : Option Event
  elements : List String
  rest : List Char

/-- The step that begins at a `<`. -/
def markup? (elements : List String) (cs : List Char) : Option Step :=
  match cs with
  | '!' :: cs => (afterBang? cs).map fun rest => ⟨none, elements, rest⟩
  | '?' :: cs => (afterInstruction? cs).map fun rest => ⟨none, elements, rest⟩
  | '/' :: cs =>
    match tagContent? none cs with
    | some (content, rest) =>
      match elements with
      | name :: elements =>
        if endName content = name then some ⟨some (.closing name), elements, rest⟩ else none
      | [] => none
    | none => none
  | cs =>
    match tagContent? none cs with
    | some (content, rest) =>
      let tag := Tag.ofContent content
      some ⟨some (.opening tag), if tag.isEmpty then elements else tag.name :: elements, rest⟩
    | none => none

/-! ### Progress -/

theorem length_lt_of_splitAtText? {mark cs front rest : List Char} (hm : mark ≠ [])
    (h : splitAtText? mark cs = some (front, rest)) : rest.length < cs.length := by
  induction cs generalizing front with
  | nil => exact nomatch h
  | cons c cs ih =>
    unfold splitAtText? at h
    split at h
    · rename_i heq
      cases h
      obtain ⟨m, ms, rfl⟩ := List.exists_cons_of_ne_nil hm
      exact Text.length_lt_of_after? heq
    · obtain ⟨⟨f, r⟩, hfr, heq⟩ := Option.map_eq_some_iff.1 h
      cases heq
      exact Nat.lt_succ_of_lt (ih hfr)

theorem length_lt_of_tagContent? {quote : Option Char} {cs front rest : List Char}
    (h : tagContent? quote cs = some (front, rest)) : rest.length < cs.length := by
  induction cs generalizing quote front with
  | nil => exact nomatch h
  | cons c cs ih =>
    unfold tagContent? at h
    split at h
    · obtain ⟨⟨f, r⟩, hfr, heq⟩ := Option.map_eq_some_iff.1 h
      cases heq
      exact Nat.lt_succ_of_lt (ih hfr)
    · split at h
      · cases h
        exact Nat.lt_succ_self _
      · obtain ⟨⟨f, r⟩, hfr, heq⟩ := Option.map_eq_some_iff.1 h
        cases heq
        exact Nat.lt_succ_of_lt (ih hfr)

theorem length_lt_of_declaration? {depth : Nat} {cs front rest : List Char}
    (h : declaration? depth cs = some (front, rest)) : rest.length < cs.length := by
  induction cs generalizing depth front with
  | nil => exact nomatch h
  | cons c cs ih =>
    unfold declaration? at h
    split at h
    · cases h
      exact Nat.lt_succ_self _
    · obtain ⟨⟨f, r⟩, hfr, heq⟩ := Option.map_eq_some_iff.1 h
      cases heq
      exact Nat.lt_succ_of_lt (ih hfr)

theorem length_le_of_afterBang? {cs rest : List Char} (h : afterBang? cs = some rest) :
    rest.length ≤ cs.length := by
  -- Comments, character data and declarations end behind what closes them.
  unfold afterBang? at h
  split at h
  · obtain ⟨⟨f, r⟩, hfr, rfl⟩ := Option.map_eq_some_iff.1 h
    have := length_lt_of_splitAtText? (by decide) hfr
    simp
    omega
  · split at h
    · obtain ⟨⟨f, r⟩, hfr, rfl⟩ := Option.map_eq_some_iff.1 h
      have := length_lt_of_splitAtText? (by decide) hfr
      simp at this ⊢
      omega
    · exact nomatch h
  · split at h
    · split at h
      · rename_i heq
        have := length_lt_of_declaration? heq
        split at h
        · exact nomatch h
        · cases h
          simp at this
          omega
      · exact nomatch h
    · exact nomatch h

theorem Step.length_le_of_markup? {elements : List String} {cs : List Char} {step : Step}
    (h : markup? elements cs = some step) : step.rest.length ≤ cs.length := by
  unfold markup? at h
  split at h
  · obtain ⟨r, hr, rfl⟩ := Option.map_eq_some_iff.1 h
    exact Nat.le_succ_of_le (length_le_of_afterBang? hr)
  · obtain ⟨r, hr, rfl⟩ := Option.map_eq_some_iff.1 h
    unfold afterInstruction? at hr
    split at hr
    · exact nomatch hr
    · obtain ⟨⟨f, r'⟩, hfr, rfl⟩ := Option.map_eq_some_iff.1 hr
      exact Nat.le_succ_of_le (Nat.le_of_lt (length_lt_of_splitAtText? (by decide) hfr))
  · split at h
    · rename_i heq
      have := length_lt_of_tagContent? heq
      split at h
      · split at h
        · cases h
          exact Nat.le_succ_of_le (Nat.le_of_lt this)
        · exact nomatch h
      · exact nomatch h
    · exact nomatch h
  · split at h
    · rename_i heq
      have := length_lt_of_tagContent? heq
      cases h
      exact Nat.le_of_lt this
    · exact nomatch h

/-! ### Documents -/

/-- The events of a document in which some elements are open already, and its ending. -/
def eventsWithin (elements : List String) (document : List Char) : List Event × Ending :=
  match _h : document.dropWhile isSpace with
  | [] => ([], if elements.isEmpty then .complete else .unclosed)
  | '<' :: cs =>
    match _hm : markup? elements cs with
    | none => ([], .malformed)
    | some step =>
      let more := eventsWithin step.elements step.rest
      (step.event.toList ++ more.1, more.2)
  | c :: cs =>
    let raw := c :: cs.takeWhile (· != '<')
    let more := eventsWithin elements (cs.dropWhile (· != '<'))
    (.text (raw.reverse.dropWhile isSpace).reverse :: more.1, more.2)
termination_by document.length
decreasing_by
  · have h₁ := Step.length_le_of_markup? _hm
    have h₂ := (List.dropWhile_suffix (l := document) isSpace).length_le
    rw [_h] at h₂
    simp at h₂
    omega
  · have h₁ := (List.dropWhile_suffix (l := cs) (· != '<')).length_le
    have h₂ := (List.dropWhile_suffix (l := document) isSpace).length_le
    rw [_h] at h₂
    simp at h₂
    omega

/-- The events of a document, up to its end or to the first place that is not well formed. -/
def events (document : List Char) : List Event × Ending :=
  match document with
  | '\ufeff' :: cs => eventsWithin [] cs
  | cs => eventsWithin [] cs

end Enumerant.Markup
