import Enumerant.Integer.Numeral
import Enumerant.Yaml.Position

/-!
# Scalars of YAML

The three ways to write a text: plain, between quotes, and as an indented block. The first two may
go on over several lines, and what stands between their words is folded: a single line break becomes
a space and of several the first is dropped.
-/

namespace Enumerant.Yaml

/-- A text that was read, and what follows it. -/
structure Span where
  text : List Char
  rest : List Char
  position : Position
  /-- Whether line breaks were passed behind the text. -/
  crossed : Bool := false

/-! ### Folding -/

/-- What stands between two words: spaces, or line breaks with the spaces around them dropped. Both
are in reverse. -/
structure Gap where
  spaces : List Char := []
  breaks : List Char := []
  /-- The first line break is behind a backslash and counts for nothing. -/
  escaped : Bool := false

namespace Gap

/-- A gap with one more space or tab. -/
def withSpace (g : Gap) (c : Char) : Gap :=
  if g.escaped || !g.breaks.isEmpty then g else { g with spaces := c :: g.spaces }

/-- A gap with one more line break. -/
def withBreak (g : Gap) (c : Char) : Gap :=
  { g with spaces := [], breaks := c :: g.breaks }

/-- What a gap contributes to the text. -/
def folded (g : Gap) : List Char :=
  if g.escaped then g.breaks.reverse
  else
    match g.breaks.reverse with
    | [] => g.spaces.reverse
    | ['\n'] => [' ']
    | '\n' :: more => more
    | all => all

/-- Whether there is nothing. -/
def isEmpty (g : Gap) : Bool :=
  g.spaces.isEmpty && g.breaks.isEmpty

end Gap

/-! ### Plain scalars -/

/-- The characters that structure flow collections. -/
def isFlowMark (c : Char) : Bool :=
  c = ',' || c = '[' || c = ']' || c = '\x7b' || c = '\x7d'

/-- Whether a plain scalar ends in front of a text that no blank precedes. -/
def endsPlain (inFlow : Bool) : List Char → Bool
  | [] => true
  | c :: cs => (c = ':' && startsBlank cs) || (inFlow && isFlowMark c)

/-- Whether a plain scalar ends in front of a text that follows a gap. -/
def endsAfterGap (inFlow : Bool) (margin : Nat) (p : Position) (cs : List Char) : Bool :=
  cs.head? == some '#' || (p.column == 0 && startsWithMark cs) || (!inFlow && p.column < margin)

/-- Whether a colon stands in front of a mark, where a flow collection does not allow one. -/
def isMisplacedColon : List Char → Bool
  | ':' :: c :: _ => c = '?' || isFlowMark c
  | _ => false

/-- The rest of a plain scalar whose text so far is given in reverse; it has to keep off a margin.
-/
def plainFrom (inFlow : Bool) (margin : Nat) (text : List Char) (gap : Gap) (p : Position) :
    List Char → Option Span
  | [] => some ⟨text.reverse, [], p, !gap.breaks.isEmpty⟩
  | c :: cs =>
    if isBreak c then plainFrom inFlow margin text (gap.withBreak c) p.nextLine cs
    else if isSpace c then
      if c = '\t' && !gap.breaks.isEmpty && p.column < margin then none
      else plainFrom inFlow margin text (gap.withSpace c) (p.next c) cs
    else if !gap.isEmpty && endsAfterGap inFlow margin p (c :: cs) then
      some ⟨text.reverse, c :: cs, p, !gap.breaks.isEmpty⟩
    else if inFlow && isMisplacedColon (c :: cs) then none
    else if endsPlain inFlow (c :: cs) then
      some ⟨text.reverse, c :: cs, p, !gap.breaks.isEmpty⟩
    else plainFrom inFlow margin (c :: (gap.folded.reverse ++ text)) {} (p.next c) cs

/-! ### Quoted scalars -/

/-- The character with a code point, if it is one. -/
def character? (n : Nat) : Option Char :=
  if n < 0xd800 ∨ (0xdfff < n ∧ n ≤ 0x10ffff) then some (Char.ofNat n) else none

/-- The character that a number of hexadecimal digits in front of a text stand for. -/
def hexadecimal? (count : Nat) (cs : List Char) : Option Char :=
  if cs.length < count then none else (Numeral.natural? 16 (cs.take count)).bind character?

/-- What the text behind a backslash stands for, and how many characters it takes. -/
def escape? : List Char → Option (Char × Nat)
  | [] => none
  | c :: cs =>
    let simple (n : Nat) : Option (Char × Nat) := some (Char.ofNat n, 1)
    match c with
    | '0' => simple 0
    | 'a' => simple 7
    | 'b' => simple 8
    | 't' | '\t' => simple 9
    | 'n' => simple 10
    | 'v' => simple 11
    | 'f' => simple 12
    | 'r' => simple 13
    | 'e' => simple 0x1b
    | ' ' => simple 0x20
    | '/' => simple 0x2f
    | '\\' => simple 0x5c
    | 'N' => simple 0x85
    | '_' => simple 0xa0
    | 'L' => simple 0x2028
    | 'P' => simple 0x2029
    | 'x' => (hexadecimal? 2 cs).map (·, 3)
    | 'u' => (hexadecimal? 4 cs).map (·, 5)
    | 'U' => (hexadecimal? 8 cs).map (·, 9)
    | _ => if c.toNat = 0x22 then simple 0x22 else none

/-- The rest of a scalar between single quotes; one within is written twice. -/
def singleFrom (text : List Char) (gap : Gap) (p : Position) (cs : List Char) : Option Span :=
  match cs with
  | [] => none
  | c :: cs =>
    if isBreak c then singleFrom text (gap.withBreak c) p.nextLine cs
    else if isSpace c then singleFrom text (gap.withSpace c) (p.next c) cs
    else if p.column = 0 ∧ startsWithMark (c :: cs) then none
    else
      let text := gap.folded.reverse ++ text
      if c.toNat = 0x27 then
        match cs with
        | [] => some ⟨text.reverse, [], p.next c, false⟩
        | d :: rest =>
          if d.toNat = 0x27 then singleFrom (d :: text) {} ((p.next c).next d) rest
          else some ⟨text.reverse, d :: rest, p.next c, false⟩
      else singleFrom (c :: text) {} (p.next c) cs

/-- The rest of a scalar between double quotes, in which a backslash opens an escape. -/
def doubleFrom (text : List Char) (gap : Gap) (p : Position) (cs : List Char) : Option Span :=
  match cs with
  | [] => none
  | c :: cs =>
    if isBreak c then doubleFrom text (gap.withBreak c) p.nextLine cs
    else if isSpace c then doubleFrom text (gap.withSpace c) (p.next c) cs
    else if p.column = 0 ∧ startsWithMark (c :: cs) then none
    else
      let text := gap.folded.reverse ++ text
      if c.toNat = 0x22 then some ⟨text.reverse, cs, p.next c, false⟩
      else if c = '\\' then
        if cs.head?.any isBreak then
          doubleFrom text { escaped := true } p.nextLine (cs.drop 1)
        else
          match escape? cs with
          | some (d, count) =>
            doubleFrom (d :: text) {} (p.past (c :: cs.take count)) (cs.drop count)
          | none => none
      else doubleFrom (c :: text) {} (p.next c) cs
termination_by cs.length
decreasing_by all_goals simp only [List.length_drop, List.length_cons]; omega

/-! ### Blocks -/

/-- What becomes of the line breaks behind a block. -/
inductive Chomping where
  | strip
  | clip
  | keep
  deriving DecidableEq

/-- Line breaks that were passed, in reverse, with the deepest column that was reached. -/
structure Breaks where
  found : List Char
  deepest : Nat
  rest : List Char
  position : Position

/-- The line breaks in front of a text, with the spaces of its margin; the margin is unknown if it
is zero. A tab within the margin is not allowed. -/
def breaksFrom (margin deepest : Nat) (found : List Char) (p : Position) :
    List Char → Option Breaks
  | [] => some ⟨found, max deepest p.column, [], p⟩
  | c :: cs =>
    let within := margin = 0 ∨ p.column < margin
    if c = ' ' ∧ within then breaksFrom margin deepest found (p.next c) cs
    else if c = '\t' ∧ within then none
    else if isBreak c then
      breaksFrom margin (max deepest p.column) (c :: found) p.nextLine cs
    else some ⟨found, max deepest p.column, c :: cs, p⟩

/-- What has been read of a block: its text and the line breaks that are still to be joined to it,
all in reverse, and whether its last line started with a space. -/
structure Block where
  text : List Char := []
  lastBreak : List Char := []
  breaks : List Char := []
  spaced : Bool := false

/-- A block with the breaks joined to it, in front of a line that may start with a space. -/
def Block.joined (b : Block) (isFolded spaced : Bool) : List Char :=
  if isFolded && b.lastBreak == ['\n'] && !b.spaced && !spaced then
    b.breaks ++ (if b.breaks.isEmpty then [' '] else []) ++ b.text
  else b.breaks ++ b.lastBreak ++ b.text

/-- The text of a block that has ended. -/
def Block.finish (b : Block) (chomping : Chomping) : List Char :=
  List.reverse <|
    match chomping with
    | .strip => b.text
    | .clip => b.lastBreak ++ b.text
    | .keep => b.breaks ++ b.lastBreak ++ b.text

/-- The rest of a block whose lines start at a margin, read for at most a number of lines. -/
def blockFrom (isFolded : Bool) (chomping : Chomping) (margin : Nat) (b : Block) (p : Position)
    (cs : List Char) : Nat → Option Span
  | 0 => some ⟨b.finish chomping, cs, p, false⟩
  | lines + 1 =>
    if p.column ≠ margin ∨ cs.isEmpty then some ⟨b.finish chomping, cs, p, false⟩
    else
      let spaced := cs.head?.any isSpace
      let line := cs.takeWhile (!isBreak ·)
      let rest := cs.dropWhile (!isBreak ·)
      let (lastBreak, after) := match rest with
        | [] => ([], p.past line)
        | c :: _ => ([c], p.nextLine)
      match breaksFrom margin 0 [] after (rest.drop 1) with
      | none => none
      | some next =>
        blockFrom isFolded chomping margin
          ⟨line.reverse ++ b.joined isFolded spaced, lastBreak, next.found, spaced⟩
          next.position next.rest lines

/-- The chomping that a character indicates. -/
def chomping? : Char → Option Chomping
  | '+' => some .keep
  | '-' => some .strip
  | _ => none

/-- The indentation that a character indicates; zero is none. -/
def increment? (c : Char) : Option Nat :=
  if '1' ≤ c ∧ c ≤ '9' then some (c.toNat - 48) else none

/-- The indications behind the mark of a block, in either order, and how many there are. -/
def indications : List Char → Option Chomping × Option Nat × Nat
  | [] => (none, none, 0)
  | [c] =>
    (chomping? c, increment? c, if (chomping? c).isSome ∨ (increment? c).isSome then 1 else 0)
  | c :: d :: _ =>
    match chomping? c, increment? c with
    | some chomping, _ =>
      (some chomping, increment? d, if (increment? d).isSome then 2 else 1)
    | none, some increment =>
      (chomping? d, some increment, if (chomping? d).isSome then 2 else 1)
    | none, none => (none, none, 0)

/-- The block behind its mark, within a margin. Only a comment may stand on the line of the mark. -/
def block (isFolded : Bool) (margin : Nat) (p : Position) (cs : List Char) : Option Span :=
  let (chomping, increment, count) := indications cs
  let line := (cs.drop count).takeWhile (!isBreak ·)
  let rest := (cs.drop count).dropWhile (!isBreak ·)
  match line.dropWhile isSpace with
  | [] | '#' :: _ =>
    let p := match rest with
      | [] => p.past cs
      | _ :: _ => p.nextLine
    let known := match increment with
      | some n => margin - 1 + n
      | none => 0
    match breaksFrom known 0 [] p (rest.drop 1) with
    | none => none
    | some first =>
      blockFrom isFolded (chomping.getD .clip)
        (if known = 0 then max first.deepest (max margin 1) else known)
        { breaks := first.found } first.position first.rest (cs.length + 1)
  | _ => none

end Enumerant.Yaml
