import Enumerant.Header.Declaration

/-!
# Reading a header

Every `enum` with a body is a declaration, wherever it stands; the rest of a header only has to keep
its braces in balance. Reading gives the items found in order, up to the fault that ended it, if one
did. The schema of a header is what its items add up to.
-/

namespace Enumerant.Header

/-- The items of a header up to the fault that ended the reading, if one did. -/
structure Reading where
  items : List Item := []
  fault : Option Fault := none
  deriving DecidableEq, Repr

/-- A reading with one more item in front. -/
def Reading.cons (item : Item) (r : Reading) : Reading :=
  { r with items := item :: r.items }

/-- The reading of tokens within a number of open braces. -/
def readTokens (last depth : Nat) (ts : List Token) : Reading :=
  match _h : next? ts with
  | none => if depth = 0 then {} else { fault := some ⟨last, .unclosedBrace⟩ }
  | some (t, rest) =>
    match t.lexeme with
    | .mark .openBrace => readTokens last (depth + 1) rest
    | .mark .closeBrace =>
      match depth with
      | 0 => { fault := some ⟨lineOf last rest, .unbalancedBrace⟩ }
      | depth + 1 => readTokens last depth rest
    | .word name =>
      if name = "enum" then
        match _he : enumeration last rest with
        | .error fault => { fault := some fault }
        | .ok (item, rest) => (readTokens last depth rest).cons item
      else readTokens last depth rest
    | _ => readTokens last depth rest
termination_by ts.length
decreasing_by
  · exact length_lt_of_next? _h
  · exact length_lt_of_next? _h
  · exact Nat.lt_of_le_of_lt (length_le_of_enumeration _he) (length_lt_of_next? _h)
  · exact length_lt_of_next? _h
  · exact length_lt_of_next? _h

/-- The reading of a header. -/
def read (text : String) : Reading :=
  let ts := tokens text.toList
  readTokens ((ts.getLast?.map Token.line).getD 1) 0 ts

/-- A schema with an item added. -/
def Item.addTo (s : Schema) : Item → Schema
  | group g => s.addGroup g
  | anonymous => s
  | bodiless _ _ => s

/-- The schema that items add up to. -/
def schemaOf (items : List Item) : Schema :=
  items.foldl Item.addTo (.of [])

/-- The schema of a header. -/
def parse (text : String) : Except Fault Schema :=
  match (read text).fault with
  | some fault => .error fault
  | none => .ok (schemaOf (read text).items)

end Enumerant.Header
