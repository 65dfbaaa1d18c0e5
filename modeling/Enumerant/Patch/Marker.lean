import Enumerant.Request
import Enumerant.Text.Blank
import Enumerant.Text.Part

/-!
# Markers

A marker is a comment that opens or closes a generated region: `// Codegen <Tag, storage, c>` opens
one and `// Codegen </Tag>` closes it. Blanks may stand in front and between the parts, the parts
behind the tag may be empty or left out, and anything may follow.
-/

namespace Enumerant

/-- A line that bounds a region. -/
inductive Marker where
  | opening (tag : String) (storage : Option String) (style : Style)
  | closing (tag : String)
  deriving DecidableEq, Repr

namespace Marker

open Text

/-- Whether a character can stand in the parts of a marker. -/
def isWord (c : Char) : Bool :=
  c.isAlphanum || c = '_'

/-- Whether a word can be a tag: it does not start with a digit. -/
def isTag : List Char → Bool
  | [] => false
  | c :: _ => c.isAlpha || c = '_'

/-- A word, and what follows it and the blanks behind it. -/
def word (cs : List Char) : List Char × List Char :=
  (cs.takeWhile isWord, trimLeft (cs.dropWhile isWord))

/-- The words behind commas in front of a text, at most as many as given, and what follows. -/
def arguments : Nat → List Char → List (List Char) × List Char
  | 0, cs => ([], cs)
  | n + 1, ',' :: cs =>
    let (argument, rest) := word (trimLeft cs)
    let (arguments, rest) := arguments n rest
    (argument :: arguments, rest)
  | _ + 1, cs => ([], cs)

/-- The marker with the given parts behind its tag. -/
def ofParts (closes : Bool) (tag : List Char) (arguments : List (List Char)) : Marker :=
  let tag := String.ofList tag
  if closes then closing tag
  else
    opening tag
      (match arguments.headD [] with
        | [] => none
        | storage => some (String.ofList storage))
      (if arguments.getD 1 [] = ['c'] then .plainEnum else .enumClass)

/-- The marker on a line. -/
def parse? (line : List Char) : Option Marker :=
  match after? "// Codegen <".toList (trimLeft line) with
  | none => none
  | some body =>
    let (closes, body) := match trimLeft body with
      | '/' :: body => (true, trimLeft body)
      | body => (false, body)
    let (tag, rest) := word body
    let (arguments, rest) := arguments 2 rest
    match rest with
    | '>' :: _ => if isTag tag then some (ofParts closes tag arguments) else none
    | _ => none

end Marker

end Enumerant
