import Enumerant.Integer.Literal
import Enumerant.Schema
import Enumerant.Text.Blank

/-!
# Entries of a registry

An `<enum>` element describes one member by its attributes: another member's name, a value as text,
a single bit, or an offset into the block of values that its extension owns. Extensions own blocks
of a thousand values from a thousand million on, by their number.
-/

namespace Enumerant.Registry

/-- Attributes by their key. -/
abbrev Attributes :=
  List (String × String)

/-- Why a registry cannot be read. -/
inductive Fault where
  | malformed
  | badAttribute
  | badAttributeValue
  | badText
  | unclosed
  | badWidth (group width : String)
  | badPosition (member position : String)
  | badOffset (member offset : String)
  | noExtensionNumber (member : String)
  deriving DecidableEq, Repr

/-- The wording of a fault. -/
def Fault.message (f : Fault) : String :=
  "registry: " ++ match f with
    | malformed => "malformed XML"
    | badAttribute => "bad attribute"
    | badAttributeValue => "bad attribute value"
    | badText => "bad text"
    | unclosed => "unexpected end of document"
    | badWidth group width => group ++ ": bad bitwidth `" ++ width ++ "`"
    | badPosition member position => member ++ ": bad bitpos `" ++ position ++ "`"
    | badOffset member offset => member ++ ": bad offset `" ++ offset ++ "`"
    | noExtensionNumber member => member ++ ": offset without an extension number"

/-! ### Values -/

/-- The literal of a single bit, spelled the way flags of 32 and of 64 bits conventionally are. A
value has 128 bits; further positions start over from the first of them, as those of a shift do. -/
def bitValue (position width : Nat) : Initializer :=
  let bit := Numeral.bit (position % 128)
  .literal (wrapped bit) <| String.ofList <|
    if width > 32 ∨ position ≥ 32 then '0' :: 'x' :: (Numeral.hex 16 bit ++ ['U', 'L', 'L'])
    else '0' :: 'x' :: Numeral.hex 8 bit

/-- The value that a text gives: an integer literal, possibly behind a minus sign. -/
def valueOfText (text : String) : Initializer :=
  let trimmed := Text.trim text.toList
  let value := match trimmed with
    | '-' :: digits => (Literal.parse? digits).map (wrapped <| -·)
    | digits => Literal.parse? digits
  match value with
  | some v => .literal v (String.ofList trimmed)
  | none => .unevaluated (String.ofList trimmed)

/-- The value at an offset into the block of an extension. It is wrapped once at the end of each
line, which gives the same as wrapping every sum and product (`wrapped_wrapped_add`). -/
def offsetValue (extension offset : Int) (negative : Bool) : Int :=
  let value := wrapped (1000000000 + (extension - 1) * 1000 + offset)
  if negative then wrapped (-value) else value

/-- A decimal number with an optional sign. -/
def number? (text : String) : Option Int :=
  Numeral.integer? 10 text.toList

/-- A decimal number of 32 bits without minus sign. -/
def word? (text : String) : Option Nat :=
  Numeral.below? 0x100000000 text.toList

/-! ### Members -/

/-- The value that the attributes of the named member give, if they give one. `extension` is the
number of the enclosing extension, which an attribute may override. -/
def entryValue (name : String) (attrs : Attributes) (width : Nat) (extension : Option Int) :
    Except Fault (Option Initializer) :=
  match attrs.lookup "alias", attrs.lookup "value", attrs.lookup "bitpos",
    attrs.lookup "offset" with
  | some target, _, _, _ => .ok (some (.reference target))
  | none, some text, _, _ => .ok (some (valueOfText text))
  | none, none, some position, _ =>
    match word? position with
    | some p =>
      if p < 64 then .ok (some (bitValue p width)) else .error (.badPosition name position)
    | none => .error (.badPosition name position)
  | none, none, none, some offset =>
    match number? offset with
    | none => .error (.badOffset name offset)
    | some o =>
      match (attrs.lookup "extnumber").bind number? <|> extension with
      | none => .error (.noExtensionNumber name)
      | some e => .ok (some (.decimal (offsetValue e o (attrs.lookup "dir" = some "-"))))
  | none, none, none, none => .ok none

/-- The member that the attributes of an `<enum>` element describe. Without a name or a value the
element only mentions a member and describes none. -/
def entryOf? (attrs : Attributes) (width : Nat) (extension : Option Int) :
    Except Fault (Option Member) :=
  match attrs.lookup "name" with
  | none => .ok none
  | some name =>
    match entryValue name attrs width extension with
    | .ok (some value) => .ok (some ⟨name, value, attrs.lookup "comment"⟩)
    | .ok none => .ok none
    | .error fault => .error fault

end Enumerant.Registry
