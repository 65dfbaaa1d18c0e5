/-!
# Byte offsets

Positions in a text are counted in bytes of its UTF-8 form. A cut at a position exists only between
two characters, and bytes are a text only if they are the form of one.
-/

namespace Enumerant.Text

/-- The number of bytes of a text. -/
def byteLength : List Char → Nat
  | [] => 0
  | c :: cs => c.utf8Size + byteLength cs

/-- The text before and after a byte offset, unless the offset lies within a character or behind the
end. -/
def splitAt? (offset : Nat) (cs : List Char) : Option (List Char × List Char) :=
  match offset, cs with
  | 0, cs => some ([], cs)
  | _ + 1, [] => none
  | n + 1, c :: cs =>
    if c.utf8Size ≤ n + 1 then
      (splitAt? (n + 1 - c.utf8Size) cs).map fun (front, back) => (c :: front, back)
    else none

/-- The text that bytes are the UTF-8 form of, if there is one. -/
def decode? (bs : List UInt8) : Option (List Char) :=
  bs.toByteArray.utf8Decode?.map Array.toList

end Enumerant.Text
