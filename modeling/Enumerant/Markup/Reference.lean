import Enumerant.Integer.Numeral

/-!
# Character references

In XML text an ampersand opens a reference that a semicolon closes: one of the five predefined
names, or a character by its number. A text with any other ampersand has no reading.
-/

namespace Enumerant.Markup

/-- The character of a code point, if it is one and not the null character. -/
def charOfCode? (n : Nat) : Option Char :=
  if h : n.isValidChar then (if n = 0 then none else some (Char.ofNatAux n h)) else none

/-- The character that the text between an ampersand and its semicolon stands for. -/
def reference? : List Char → Option Char
  | '#' :: 'x' :: digits => (Numeral.natural? 16 digits).bind charOfCode?
  | '#' :: digits => (Numeral.natural? 10 digits).bind charOfCode?
  | ['l', 't'] => some '<'
  | ['g', 't'] => some '>'
  | ['a', 'm', 'p'] => some '&'
  | ['a', 'p', 'o', 's'] => some (Char.ofNat 0x27)
  | ['q', 'u', 'o', 't'] => some (Char.ofNat 0x22)
  | _ => none

/-- A text with its references replaced. `pending` is the text since an ampersand that is still
open. -/
def unescapeWith? (pending : Option (List Char)) : List Char → Option (List Char)
  | [] => if pending.isNone then some [] else none
  | c :: cs =>
    match pending with
    | none =>
      if c = '&' then unescapeWith? (some []) cs
      else (unescapeWith? none cs).map (c :: ·)
    | some name =>
      if c = '&' then none
      else if c = ';' then
        match reference? name with
        | some d => (unescapeWith? none cs).map (d :: ·)
        | none => none
      else unescapeWith? (some (name ++ [c])) cs

/-- A text with its references replaced by the characters that they stand for. -/
def unescape? (cs : List Char) : Option (List Char) :=
  unescapeWith? none cs

example : unescape? "a &lt; b &#x41;&amp;".toList = some "a < b A&".toList := by decide +kernel

example : unescape? "a & b;".toList = none ∧ unescape? "a &".toList = none := by decide +kernel

end Enumerant.Markup
