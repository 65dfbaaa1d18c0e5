import Enumerant.Request
import Enumerant.Text.Blank
import Enumerant.Text.Part

/-!
# Request lines

A line holds a group's name, whether functions for its names are wanted, and a style, divided by
commas; the last two may be left out. A `#` opens a comment, and a line with nothing else on it asks
for nothing.
-/

namespace Enumerant.Request

open Text

/-- A line without its comment and without blanks at its ends. -/
def content (line : List Char) : List Char :=
  trim (line.takeWhile (· != '#'))

/-- A text with the letters `A` to `Z` lowered. -/
def lowered (cs : List Char) : List Char :=
  cs.map Char.toLower

/-- The answer that a word gives to a question of yes or no. -/
def flag? (word : List Char) : Option Bool :=
  if lowered word ∈ ["yes", "true", "t", "1"].map String.toList then some true
  else if lowered word ∈ ["", "no", "false", "f", "0"].map String.toList then some false
  else none

/-- The style that a word names. -/
def style? (word : List Char) : Option Style :=
  if word = [] then some .enumClass
  else if lowered word = ['c'] then some .plainEnum
  else none

/-- Whether a word can be the name of a group. -/
def isGroupName (word : List Char) : Bool :=
  word.all fun c => c.isAlphanum || c = '_'

/-- The request of the given fields; fields left out are empty. -/
def ofFields (fields : List (List Char)) : Except Cause Request :=
  let group := fields.headD []
  let flag := fields.getD 1 []
  let style := fields.getD 2 []
  if fields.length > 3 then .error (.tooManyFields fields.length)
  else if group = [] then .error .missingGroup
  else if !isGroupName group then .error (.invalidGroup (String.ofList group))
  else
    match flag? flag with
    | none => .error (.invalidFlag (String.ofList flag))
    | some table =>
      match style? style with
      | none => .error (.invalidStyle (String.ofList style))
      | some style => .ok { group := String.ofList group, table, style }

/-- The request on the line of the given number, if the line asks for anything. -/
def parse (line : List Char) (number : Nat) : Except Fault (Option Request) :=
  if content line = [] then .ok none
  else
    match ofFields ((fields (· == ',') (content line)).map trim) with
    | .ok request => .ok (some request)
    | .error cause => .error ⟨number, cause⟩

end Enumerant.Request
