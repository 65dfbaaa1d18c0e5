import Enumerant.Yaml.Property
import Enumerant.Yaml.Scalar

/-!
# Tokens of YAML

The tokens of a text, with blocks opened and closed by indentation. A key is known as such only by
the colon behind it, so a place where one may have started is kept as a candidate, and the tokens
that open the key are put there once the colon is found. Anchors are numbered and tags written in
full, so that names and handles have no part in what follows.
-/

namespace Enumerant.Yaml

/-- A token. A scalar tells whether it was plain, as only then its text may mean something else. -/
inductive Token where
  | directive
  | documentStart
  | documentEnd
  | blockSequence
  | blockMapping
  | blockEnd
  | openBracket
  | closeBracket
  | openBrace
  | closeBrace
  | dash
  | comma
  | key
  | value
  | anchor (number : Nat)
  | reference (number : Nat)
  | tag (name : String)
  | scalar (text : String) (isPlain : Bool)
  deriving DecidableEq, Repr

/-- A place where a key may have started. -/
structure Candidate where
  /-- The number of tokens in front of it. -/
  before : Nat
  position : Position
  /-- Whether the place leaves no other choice. -/
  required : Bool

/-- What has been read of a text. -/
structure Scan where
  rest : List Char
  position : Position := {}
  /-- The tokens in reverse. -/
  tokens : List Token := []
  /-- The margins of the open blocks, innermost first: their columns plus one. -/
  margins : List Nat := []
  candidate : Option Candidate := none
  /-- The candidates around the open flow collections, innermost first. -/
  outer : List (Option Candidate) := []
  /-- Whether a key may start here. -/
  keyAllowed : Bool := true
  /-- Whether a directive has told the version. -/
  hasVersion : Bool := false
  /-- The declared handles, with what they stand for. -/
  handles : List (String × String) := []
  /-- The names of anchors so far, each with the number of its last one. -/
  anchors : List (String × Nat) := []

namespace Scan

/-- The column that a block within the innermost open one has to reach. -/
def margin (s : Scan) : Nat :=
  s.margins.headD 0

/-- Whether a flow collection is open, so that indentation has no meaning. -/
def inFlow (s : Scan) : Bool :=
  !s.outer.isEmpty

/-- The state after a token. -/
def push (s : Scan) (t : Token) : Scan :=
  { s with tokens := t :: s.tokens }

/-- The state after a number of characters on a line. -/
def advance (s : Scan) (count : Nat) : Scan :=
  { s with rest := s.rest.drop count, position := s.position.past (s.rest.take count) }

/-- The state with tokens put behind a number of others. -/
def insert (s : Scan) (before : Nat) (ts : List Token) : Scan :=
  let count := s.tokens.length - before
  { s with tokens := s.tokens.take count ++ ts.reverse ++ s.tokens.drop count }

/-! ### Blanks -/

/-- What follows blanks, comments and line breaks. A tab is blank only where no key may start. -/
def blanksFrom (inFlow keyAllowed inComment : Bool) (p : Position) :
    List Char → List Char × Position × Bool
  | [] => ([], p, keyAllowed)
  | c :: cs =>
    if isBreak c then blanksFrom inFlow (keyAllowed || !inFlow) false p.nextLine cs
    else if inComment || c = ' ' || (c = '\t' && (inFlow || !keyAllowed))
        || (isByteOrderMark c && p.column == 0) then
      blanksFrom inFlow keyAllowed inComment (p.next c) cs
    else if c = '#' then blanksFrom inFlow keyAllowed true (p.next c) cs
    else (c :: cs, p, keyAllowed)

/-- The state in front of the next token. -/
def passBlanks (s : Scan) : Scan :=
  let (rest, position, keyAllowed) := blanksFrom s.inFlow s.keyAllowed false s.position s.rest
  { s with rest, position, keyAllowed }

/-! ### Candidates -/

/-- The state without the current candidate, which must not have been required. -/
def dropCandidate (s : Scan) : Option Scan :=
  if s.candidate.any Candidate.required then none else some { s with candidate := none }

/-- The state in which what comes next is a candidate, if a key may start here. -/
def offer (s : Scan) : Option Scan :=
  if s.keyAllowed then
    s.dropCandidate.map fun s =>
      { s with
        candidate := some
          { before := s.tokens.length
            position := s.position
            required := !s.inFlow && s.margin == s.position.column + 1 } }
  else some s

/-- Whether a candidate is out of reach: a key stands on one line and is not too long. -/
def isStale (p : Position) (c : Candidate) : Bool :=
  c.position.line < p.line || c.position.offset + 1024 < p.offset

/-- The state without the candidates that are out of reach. -/
def withoutStale (s : Scan) : Option Scan :=
  let stale := isStale s.position
  if (s.candidate :: s.outer).any fun c => c.any fun c => stale c && c.required then none
  else
    some { s with
      candidate := s.candidate.filter (!stale ·)
      outer := s.outer.map fun c => c.filter (!stale ·) }

/-! ### Blocks -/

/-- The state in which a block is open whose entries start at a column; its token is put behind a
number of others if it was not open. -/
def openBlock (s : Scan) (column before : Nat) (t : Token) : Scan :=
  if s.inFlow ∨ column < s.margin then s
  else { s.insert before [t] with margins := (column + 1) :: s.margins }

/-- The state after the blocks are closed whose margin is above a limit. -/
def closeBlocks (s : Scan) (limit : Nat) : Scan :=
  if s.inFlow then s
  else
    { s with
      tokens := List.replicate (s.margins.takeWhile (limit < ·)).length .blockEnd ++ s.tokens
      margins := s.margins.dropWhile (limit < ·) }

/-! ### Tokens -/

/-- The state after a mark that bounds documents. -/
def documentMark (s : Scan) (t : Token) : Option Scan :=
  ((s.closeBlocks 0).dropCandidate).map fun s => { (s.advance 3).push t with keyAllowed := false }

/-- The state after a bracket or brace that opens. -/
def openFlow (s : Scan) (t : Token) : Option Scan :=
  s.offer.map fun s =>
    { (s.advance 1).push t with
      candidate := none, outer := s.candidate :: s.outer, keyAllowed := true }

/-- The state after a bracket or brace that closes. -/
def closeFlow (s : Scan) (t : Token) : Option Scan :=
  s.dropCandidate.map fun s =>
    { (s.advance 1).push t with
      candidate := s.outer.headD none, outer := s.outer.tail, keyAllowed := false }

/-- The state after a comma between the entries of a flow collection. -/
def comma (s : Scan) : Option Scan :=
  s.dropCandidate.map fun s => { (s.advance 1).push .comma with keyAllowed := true }

/-- The state after the dash of an entry. -/
def dash (s : Scan) : Option Scan :=
  if !s.inFlow && !s.keyAllowed then none
  else
    (s.openBlock s.position.column s.tokens.length .blockSequence).dropCandidate.map fun s =>
      { (s.advance 1).push .dash with keyAllowed := true }

/-- The state after the question mark of a key. -/
def questionMark (s : Scan) : Option Scan :=
  if !s.inFlow && !s.keyAllowed then none
  else
    (s.openBlock s.position.column s.tokens.length .blockMapping).dropCandidate.map fun s =>
      { (s.advance 1).push .key with keyAllowed := !s.inFlow }

/-- The state after the colon in front of a value. -/
def colon (s : Scan) : Option Scan :=
  match s.candidate with
  | some c =>
    let s := (s.insert c.before [.key]).openBlock c.position.column c.before .blockMapping
    some { (s.advance 1).push .value with candidate := none, keyAllowed := false }
  | none =>
    if !s.inFlow && !s.keyAllowed then none
    else
      let s := s.openBlock s.position.column s.tokens.length .blockMapping
      some { (s.advance 1).push .value with keyAllowed := !s.inFlow }

/-- The state after a scalar. -/
def scalar (s : Scan) (span : Span) (isPlain keyAllowed : Bool) : Scan :=
  { s.push (.scalar (String.ofList span.text) isPlain) with
    rest := span.rest, position := span.position, keyAllowed }

/-- The state after a plain scalar. -/
def plain (s : Scan) : Option Scan := do
  let s ← s.offer
  let span ← plainFrom s.inFlow s.margin [] {} s.position s.rest
  return s.scalar span true span.crossed

/-- The state after a quoted scalar. -/
def quoted (s : Scan) (isDouble : Bool) : Option Scan := do
  let s ← s.offer
  let quote ← s.rest.head?
  let span ← (if isDouble then doubleFrom else singleFrom) [] {} (s.position.next quote)
    (s.rest.drop 1)
  return s.scalar span false false

/-- The state after a block scalar. -/
def blockScalar (s : Scan) (isFolded : Bool) : Option Scan := do
  let s ← s.dropCandidate
  let mark ← s.rest.head?
  let span ← block isFolded s.margin (s.position.next mark) (s.rest.drop 1)
  return s.scalar span false true

/-- The state after a directive, which takes up its line. -/
def directive (s : Scan) : Option Scan := do
  let s ← (s.closeBlocks 0).dropCandidate
  let line := s.rest.takeWhile (!isBreak ·)
  let position := if (s.rest.drop line.length).isEmpty then s.position.past line
    else s.position.nextLine
  let after := { s.push .directive with
    rest := s.rest.drop (line.length + 1), position, keyAllowed := false }
  match ← directive? (line.drop 1) with
  | .version major minor =>
    if s.hasVersion ∨ major ≠ 1 ∨ (minor ≠ 1 ∧ minor ≠ 2) then none
    else return { after with hasVersion := true }
  | .handle name front =>
    if (s.handles.lookup name).isSome then none
    else return { after with handles := (name, front) :: s.handles }

/-- The state after an anchor. Its number is how many names are known, and if its own is known, it
takes the place of the other; so anchors may share a number. -/
def anchor (s : Scan) : Option Scan := do
  let s ← s.offer
  let (name, _) ← anchorName? (s.rest.drop 1)
  let number := s.anchors.length
  return { (s.advance (name.length + 1)).push (.anchor number) with
    keyAllowed := false
    anchors := (name, number) :: s.anchors.filter (·.1 ≠ name) }

/-- The state after a reference to an anchor. -/
def reference (s : Scan) : Option Scan := do
  let s ← s.offer
  let (name, _) ← anchorName? (s.rest.drop 1)
  let number ← s.anchors.lookup name
  return { (s.advance (name.length + 1)).push (.reference number) with keyAllowed := false }

/-- The state after a tag. -/
def tag (s : Scan) : Option Scan := do
  let s ← s.offer
  let (name, rest) ← tag? s.handles (s.rest.drop 1)
  if !endsTag s.inFlow rest then none
  else
    return { (s.advance (s.rest.length - rest.length)).push (.tag name) with keyAllowed := false }

/-- The characters that no plain scalar starts with. -/
def isIndicator (c : Char) : Bool :=
  isFlowMark c || c.toNat == 0x22 || c.toNat == 0x27 || c.toNat == 0x60 ||
    c ∈ ['-', '?', ':', '#', '&', '*', '!', '|', '>', '%', '@']

/-- Whether a plain scalar starts here. -/
def startsPlain (inFlow : Bool) : List Char → Bool
  | [] => false
  | c :: cs =>
    !(isSpace c || isBreak c || isIndicator c)
      || (c = '-' && !(cs.head?.any isSpace))
      || (!inFlow && (c = '?' || c = ':') && !startsBlank cs)

/-- The state after the next token, in front of which the state is. -/
def token (s : Scan) (c : Char) (cs : List Char) : Option Scan :=
  if s.position.column = 0 ∧ c = '%' then s.directive
  else if s.position.column = 0 ∧ startsWithThree '-' (c :: cs) then s.documentMark .documentStart
  else if s.position.column = 0 ∧ startsWithThree '.' (c :: cs) then s.documentMark .documentEnd
  else if c = '[' then s.openFlow .openBracket
  else if c = '\x7b' then s.openFlow .openBrace
  else if c = ']' then s.closeFlow .closeBracket
  else if c = '\x7d' then s.closeFlow .closeBrace
  else if c = ',' then s.comma
  else if c = '-' ∧ startsBlank cs then s.dash
  else if c = '?' ∧ (s.inFlow ∨ startsBlank cs) then s.questionMark
  else if c = ':' ∧ (s.inFlow ∨ startsBlank cs) then s.colon
  else if c = '*' then s.reference
  else if c = '&' then s.anchor
  else if c = '!' then s.tag
  else if c = '|' ∧ !s.inFlow then s.blockScalar false
  else if c = '>' ∧ !s.inFlow then s.blockScalar true
  else if c.toNat = 0x27 then s.quoted false
  else if c.toNat = 0x22 then s.quoted true
  else if startsPlain s.inFlow (c :: cs) then s.plain
  else none

/-- The tokens from a state on, of which there are at most as many as given. -/
def finish (s : Scan) : Nat → Option (List Token)
  | 0 => none
  | count + 1 =>
    match s.passBlanks.withoutStale with
    | none => none
    | some s =>
      match s.rest with
      | [] => ((s.closeBlocks 0).dropCandidate).map (·.tokens.reverse)
      | c :: cs =>
        match (s.closeBlocks (s.position.column + 1)).token c cs with
        | none => none
        | some s => s.finish count

end Scan

/-- The tokens of a text, unless it breaks the rules. -/
def tokens? (cs : List Char) : Option (List Token) :=
  let content := withLineFeeds cs
  if content.all isPrintable then Scan.finish { rest := content } (content.length + 1) else none

end Enumerant.Yaml
