import Enumerant.Yaml.Double

/-!
# Nodes of YAML

What a YAML text means. The text of a plain scalar may stand for nothing, a truth value or a number;
what it stands for is settled by its form alone, unless a tag settles it.
-/

namespace Enumerant.Yaml

/-- The meaning of a YAML text. A tag of its own kind is kept with what it stands in front of. -/
inductive Node where
  | null
  | boolean (value : Bool)
  | integer (value : Int)
  | decimal (value : Double)
  | text (value : String)
  | sequence (items : List Node)
  | mapping (entries : List (Node × Node))
  | tagged (tag : String) (value : Node)
  deriving Repr

namespace Node

/-- A node without the tags in front of it. -/
def untagged : Node → Node
  | tagged _ value => value.untagged
  | n => n

/-- The text of a node, if it is one; tags do not matter. -/
def text? (n : Node) : Option String :=
  match n.untagged with
  | text s => some s
  | _ => none

/-- The integer that a node is, if it is one; tags do not matter. -/
def integerValue? (n : Node) : Option Int :=
  match n.untagged with
  | integer v => some v
  | _ => none

/-! ### Plain scalars -/

/-- A numeral without its sign, and the sign if there is one. -/
def sign : List Char → Option Char × List Char
  | '+' :: cs => (some '+', cs)
  | '-' :: cs => (some '-', cs)
  | cs => (none, cs)

/-- Whether a text is a sequence of digits that starts with a zero, which is no number. -/
def isZeroLed (cs : List Char) : Bool :=
  match (sign cs).2 with
  | '0' :: c :: rest => (c :: rest).all Char.isDigit
  | _ => false

/-- The value of an integer without sign: decimal, or in another radix behind a mark. -/
def magnitude? : List Char → Option Nat
  | '0' :: 'x' :: cs => Numeral.natural? 16 cs
  | '0' :: 'o' :: cs => Numeral.natural? 8 cs
  | '0' :: 'b' :: cs => Numeral.natural? 2 cs
  | cs => Numeral.natural? 10 cs

/-- The value of an integer. -/
def integer? (cs : List Char) : Option Int :=
  if isZeroLed cs then none
  else
    match sign cs with
    | (some '-', digits) => (magnitude? digits).map fun n => -(n : Int)
    | (_, digits) => (magnitude? digits).map fun n => (n : Int)

/-- The digits in front of a text, and what follows them. -/
def digits (cs : List Char) : List Char × List Char :=
  (cs.takeWhile Char.isDigit, cs.dropWhile Char.isDigit)

/-- The power of ten that the end of a decimal number gives. -/
def exponent? : List Char → Option Int
  | [] => some 0
  | c :: cs =>
    if c = 'e' ∨ c = 'E' then
      match sign cs with
      | (some '-', ds) => (Numeral.natural? 10 ds).map fun n => -(n : Int)
      | (_, ds) => (Numeral.natural? 10 ds).map fun n => (n : Int)
    else none

/-- The number that an unsigned decimal stands for: a factor and a power of ten. -/
def decimal? (cs : List Char) : Option (Nat × Int) :=
  let (whole, rest) := digits cs
  let (fraction, rest) := match rest with
    | '.' :: rest => digits rest
    | _ => ([], rest)
  match Numeral.natural? 10 (whole ++ fraction), exponent? rest with
  | some factor, some e => some (factor, e - fraction.length)
  | _, _ => none

/-- The number in double precision that a text stands for. One that would not be finite is none,
unless the text names it. -/
def double? (cs : List Char) : Option Double :=
  let (mark, unsigned) := sign cs
  if [".inf", ".Inf", ".INF"].contains (String.ofList unsigned) then
    some (.infinite (mark == some '-'))
  else if [".nan", ".NaN", ".NAN"].contains (String.ofList cs) then some .undefined
  else (decimal? unsigned).bind fun (factor, e) => Double.ofDecimal? (mark == some '-') factor e

/-- The truth value that a text stands for. -/
def boolean? (cs : List Char) : Option Bool :=
  if ["true", "True", "TRUE"].contains (String.ofList cs) then some true
  else if ["false", "False", "FALSE"].contains (String.ofList cs) then some false
  else none

/-- Whether a text names the absence of a value. -/
def isNull (cs : List Char) : Bool :=
  ["null", "Null", "NULL", "~"].contains (String.ofList cs)

/-- The node of an integer; `other` stands for one that 128 bits do not hold. One that they hold is
refused if 64 bits do not. -/
def ofInteger? (v : Int) (other : Option Node) : Option Node :=
  if -(Numeral.bit 63 : Int) ≤ v ∧ v < Numeral.bit 64 then some (integer v)
  else if -(Numeral.bit 127 : Int) ≤ v ∧ v < Numeral.bit 128 then none
  else other

/-- What a plain scalar stands for. -/
def ofPlain? (cs : List Char) : Option Node :=
  if cs = [] ∨ isNull cs then some null
  else
    match boolean? cs with
    | some b => some (boolean b)
    | none =>
      let other := match if isZeroLed cs then none else double? cs with
        | some number => decimal number
        | none => text (String.ofList cs)
      match integer? cs with
      | some v => ofInteger? v (some other)
      | none => some other

/-- What a scalar with a tag stands for, plain or not. A tag that is not one of the standard ones
makes it a text. -/
def ofTagged? (tag : String) (cs : List Char) : Option Node :=
  match tag with
  | "tag:yaml.org,2002:null" => if isNull cs then some null else none
  | "tag:yaml.org,2002:bool" => (boolean? cs).map boolean
  | "tag:yaml.org,2002:int" => (integer? cs).bind fun v => ofInteger? v none
  | "tag:yaml.org,2002:float" => (double? cs).map decimal
  | _ => some (text (String.ofList cs))

/-! ### Sameness -/

mutual

/-- Whether two nodes mean the same; the order of entries is no part of the meaning. -/
def same : Node → Node → Bool
  | null, null => true
  | boolean a, boolean b => a == b
  | integer a, integer b => a == b
  | decimal a, decimal b => a == b
  | text a, text b => a == b
  | sequence as, sequence bs => sameItems as bs
  | mapping as, mapping bs => as.length == bs.length && within as bs
  | tagged s a, tagged t b => s == t && same a b
  | _, _ => false

/-- Whether two sequences mean the same. -/
def sameItems : List Node → List Node → Bool
  | [], [] => true
  | a :: as, b :: bs => same a b && sameItems as bs
  | _, _ => false

/-- Whether all entries of a mapping are entries of another. -/
def within : List (Node × Node) → List (Node × Node) → Bool
  | [], _ => true
  | (key, value) :: as, bs => bs.any (fun b => same key b.1 && same value b.2) && within as bs

end

instance : BEq Node :=
  ⟨same⟩

end Node

end Enumerant.Yaml
