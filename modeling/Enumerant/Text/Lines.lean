/-!
# Lines

Text is divided into pieces, each of which ends with its line break save perhaps the last. Nothing
is lost: the pieces put together are the text again.
-/

namespace Enumerant.Text

/-- The pieces of a list, each ending with the first element that closes it. -/
def pieces {α : Type} (closes : α → Bool) : List α → List (List α)
  | [] => []
  | a :: as =>
    if closes a then [a] :: pieces closes as
    else
      match pieces closes as with
      | [] => [[a]]
      | p :: ps => (a :: p) :: ps

/-- The pieces put together are the list. -/
theorem flatten_pieces {α : Type} (closes : α → Bool) (as : List α) :
    (pieces closes as).flatten = as := by
  fun_induction pieces closes as <;> simp_all

/-- The lines of a text with their line breaks. -/
def lines (s : String) : List String :=
  (pieces (· == '\n') s.toList).map String.ofList

/-- A line without its line break, be it a line feed or a carriage return and a line feed. -/
def withoutBreak (cs : List Char) : List Char :=
  match cs.reverse with
  | '\n' :: '\r' :: rest => rest.reverse
  | '\n' :: rest => rest.reverse
  | _ => cs

/-- The lines of a sequence of bytes, each decoded on its own; one that is no UTF-8 has no text. -/
def decodedLines (bytes : ByteArray) : List (Option String) :=
  (pieces (· == 10) bytes.toList).map fun line => String.fromUTF8? line.toByteArray

end Enumerant.Text
