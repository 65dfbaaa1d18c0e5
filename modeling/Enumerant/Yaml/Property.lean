import Enumerant.Integer.Numeral
import Enumerant.Yaml.Position

/-!
# Properties of YAML nodes

What may stand in front of a node: an anchor, by which the node can be referred to, and a tag, which
tells what kind of node it is. A tag is written in full between angle brackets or with a handle that
stands for its front; a directive at the start of a document declares a handle.
-/

namespace Enumerant.Yaml

/-! ### Words -/

/-- Whether a character may stand in the name of an anchor, of a handle or of a directive. -/
def isWordChar (c : Char) : Bool :=
  c.isAlphanum || c = '_' || c = '-'

/-- The word in front of a text, and what follows it. -/
def word (cs : List Char) : List Char × List Char :=
  (cs.takeWhile isWordChar, cs.dropWhile isWordChar)

/-- The name of an anchor in front of a text, and what follows it. -/
def anchorName? (cs : List Char) : Option (String × List Char) :=
  let (name, rest) := word cs
  let ends := startsBlank rest || rest.head?.any fun c =>
    c.toNat == 0x60 || ['?', ':', ',', ']', '\x7d', '%', '@'].contains c
  if name = [] ∨ !ends then none else some (String.ofList name, rest)

/-! ### Tags -/

/-- Whether a character may stand in a tag. Between angle brackets and in a directive some more may.
-/
def isTagChar (isWide : Bool) (c : Char) : Bool :=
  isWordChar c || c.toNat == 0x27
    || [';', '/', '?', ':', '@', '&', '=', '+', '$', '.', '!', '~', '*', '(', ')'].contains c
    || (isWide && [',', '[', ']'].contains c)

/-- How many octets follow the first one of a character, if it is one. -/
def octetsBehind? (octet : Nat) : Option Nat :=
  if octet < 0x80 then some 0
  else if octet < 0xc0 then none
  else if octet < 0xe0 then some 1
  else if octet < 0xf0 then some 2
  else if octet < 0xf8 then some 3
  else none

/-- The number of octets of the same character that are expected behind one, of which as many as
given were expected before it. -/
def expectedBehind? (expected octet : Nat) : Option Nat :=
  match expected with
  | 0 => octetsBehind? octet
  | more + 1 => if octet / 0x40 = 2 then some more else none

/-- The octets of the tag in front of a text, and what follows it. Any octet may be written with a
percent sign and two digits. As many such octets as expected have to come first. -/
def tagOctets? (isWide : Bool) (expected : Nat) : List Char → Option (List UInt8 × List Char)
  | '%' :: a :: b :: cs => do
    let octet ← Numeral.natural? 16 [a, b]
    let (more, rest) ← tagOctets? isWide (← expectedBehind? expected octet) cs
    return (octet.toUInt8 :: more, rest)
  | c :: cs =>
    if c = '%' ∨ expected ≠ 0 then none
    else if isTagChar isWide c then
      (tagOctets? isWide 0 cs).map fun (more, rest) => (c.toNat.toUInt8 :: more, rest)
    else some ([], c :: cs)
  | [] => if expected = 0 then some ([], []) else none

/-- The part of a tag in front of a text, and what follows it. -/
def tagPart? (isWide : Bool) (cs : List Char) : Option (String × List Char) := do
  let (octets, rest) ← tagOctets? isWide 0 cs
  return (← String.fromUTF8? octets.toByteArray, rest)

/-- What a handle stands for, by the declared ones and the two that need no declaration. -/
def frontOf? (handles : List (String × String)) (handle : String) : Option String :=
  (handles ++ [("!", "!"), ("!!", "tag:yaml.org,2002:")]).lookup handle

/-- The tag behind an exclamation mark, and what follows it. -/
def tag? (handles : List (String × String)) (cs : List Char) : Option (String × List Char) :=
  match cs with
  | '<' :: cs =>
    match tagPart? true cs with
    | some (tag, '>' :: rest) => if tag = "" then none else some (tag, rest)
    | _ => none
  | cs =>
    let (name, rest) := word cs
    match rest with
    | '!' :: rest => do
      let (part, rest) ← tagPart? false rest
      if part = "" then none
      else return ((← frontOf? handles (String.ofList ('!' :: (name ++ ['!'])))) ++ part, rest)
    | _ => do
      let (part, rest) ← tagPart? false cs
      if part = "" then return ("!", rest)
      else return ((← frontOf? handles "!") ++ part, rest)

/-- Whether a tag ends in front of a text. -/
def endsTag (inFlow : Bool) (cs : List Char) : Bool :=
  startsBlank cs || (inFlow && cs.head? == some ',')

/-! ### Directives -/

/-- What a directive declares. -/
inductive Directive where
  | version (major minor : Nat)
  | handle (name front : String)
  deriving DecidableEq, Repr

/-- The number in front of a text, of at most nine digits, and what follows it. -/
def versionNumber? (cs : List Char) : Option (Nat × List Char) :=
  let ds := cs.takeWhile Char.isDigit
  if 9 < ds.length then none else (Numeral.natural? 10 ds).map (·, cs.dropWhile Char.isDigit)

/-- The version in front of a text, and what follows it. -/
def version? (cs : List Char) : Option (Directive × List Char) :=
  match versionNumber? cs with
  | some (major, '.' :: cs) =>
    (versionNumber? cs).map fun (minor, rest) => (.version major minor, rest)
  | _ => none

/-- The handle in front of a text, and what follows it. -/
def handleName? : List Char → Option (String × List Char)
  | '!' :: cs =>
    let (name, rest) := word cs
    match rest with
    | '!' :: rest => some (String.ofList ('!' :: (name ++ ['!'])), rest)
    | _ => if name = [] then some ("!", rest) else none
  | _ => none

/-- The declaration of a handle in front of a text, and what follows it. -/
def handle? (cs : List Char) : Option (Directive × List Char) := do
  let (name, rest) ← handleName? cs
  let (front, after) ← tagPart? true (rest.dropWhile isSpace)
  if front = "" ∨ !rest.head?.any isSpace ∨ !startsBlank after then none
  else return (.handle name front, after)

/-- The directive on a line, behind its percent sign. Only a comment may follow it. -/
def directive? (line : List Char) : Option Directive := do
  let (name, rest) := word line
  let (directive, rest) ←
    if !startsBlank rest then none
    else
      match String.ofList name with
      | "YAML" => version? (rest.dropWhile isSpace)
      | "TAG" => handle? (rest.dropWhile isSpace)
      | _ => none
  match rest.dropWhile isSpace with
  | [] | '#' :: _ => return directive
  | _ => none

end Enumerant.Yaml
