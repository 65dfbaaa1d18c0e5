import Enumerant.Yaml.Token

/-!
# Trees of YAML

The nodes of a document as they are written, with their properties in front of them and references
in the places of what they refer to. An item, a key or a value may be left out. Between two tokens
that are used up only a few functions call each other, so a multiple of the number of tokens bounds
the calls.
-/

namespace Enumerant.Yaml

/-- What stands in front of a node. -/
structure Properties where
  anchor : Option Nat := none
  tag : Option String := none
  deriving DecidableEq, Repr

/-- A node as it is written. -/
inductive Tree where
  | reference (anchor : Nat)
  | scalar (properties : Properties) (text : String) (isPlain : Bool)
  | sequence (properties : Properties) (items : List Tree)
  | mapping (properties : Properties) (entries : List (Tree × Tree))
  deriving Repr

namespace Tree

/-- What stands for a node that has been left out. -/
def omitted (properties : Properties) : Tree :=
  scalar properties "" true

/-- What stands in front of a node. -/
def properties : Tree → Properties
  | reference _ => {}
  | scalar p _ _ => p
  | sequence p _ => p
  | mapping p _ => p

/-! ### Parts -/

mutual

/-- A tree and all that is within it, in the order of the text. -/
def parts : Tree → List Tree
  | sequence p items => sequence p items :: partsOfItems items
  | mapping p entries => mapping p entries :: partsOfEntries entries
  | t => [t]

/-- The parts of the items of a sequence. -/
def partsOfItems : List Tree → List Tree
  | [] => []
  | t :: ts => parts t ++ partsOfItems ts

/-- The parts of the entries of a mapping. -/
def partsOfEntries : List (Tree × Tree) → List Tree
  | [] => []
  | (key, value) :: es => parts key ++ parts value ++ partsOfEntries es

end

/-- How many events tell of a tree apart from what is within it: a collection has two ends. -/
def ends : Tree → Nat
  | reference _ | scalar .. => 1
  | sequence .. | mapping .. => 2

/-- How many events tell of a tree. -/
def events (t : Tree) : Nat :=
  t.parts.foldl (fun count part => count + part.ends) 0

/-- The part of a tree that the number of an anchor stands for: the last one that has it. -/
def anchored? (t : Tree) (anchor : Nat) : Option Tree :=
  t.parts.reverse.find? fun part => part.properties.anchor == some anchor

end Tree

/-! ### Reading -/

/-- Whether blocks may be read, and whether a sequence may share the margin of its key. -/
inductive Context where
  | flow
  | block
  | member
  deriving DecidableEq

/-- Whether one of some tokens comes first, or none at all. -/
def stopsAt (stops : List Token) : List Token → Bool
  | [] => true
  | t :: _ => stops.contains t

/-- The tokens that end an item, whether or not its sequence shares the margin of a key. -/
def itemStops (isShared : Bool) : List Token :=
  if isShared then [.dash, .key, .value, .blockEnd] else [.dash, .blockEnd]

/-- The tokens that end a key or a value. -/
def memberStops : List Token :=
  [.key, .value, .blockEnd]

/-- The tokens that end a key or a value within brackets or braces. -/
def flowStops (closing : Token) : List Token :=
  [.value, .comma, closing]

/-- The properties in front of tokens, in either order, and what follows them. -/
def properties : List Token → Properties × List Token
  | .anchor n :: .tag t :: rest => ({ anchor := some n, tag := some t }, rest)
  | .tag t :: .anchor n :: rest => ({ anchor := some n, tag := some t }, rest)
  | .anchor n :: rest => ({ anchor := some n }, rest)
  | .tag t :: rest => ({ tag := some t }, rest)
  | rest => ({}, rest)

/-- The properties of a scalar that has been written: a mere exclamation mark tells nothing of it.
-/
def scalarProperties (p : Properties) : Properties :=
  { p with tag := p.tag.filter (· ≠ "!") }

mutual

/-- The node in front of tokens. One that has properties may be left out. -/
def node : Nat → Context → List Token → Option (Tree × List Token)
  | 0, _, _ => none
  | _ + 1, _, .reference n :: rest => some (.reference n, rest)
  | fuel + 1, context, ts =>
    let (p, ts) := properties ts
    match ts, context with
    | .scalar text isPlain :: rest, _ => some (.scalar (scalarProperties p) text isPlain, rest)
    | .openBracket :: rest, _ =>
      (flowItems fuel rest).map fun (items, rest) => (.sequence p items, rest)
    | .openBrace :: rest, _ =>
      (flowEntries fuel rest).map fun (es, rest) => (.mapping p es, rest)
    | .blockSequence :: rest, .block | .blockSequence :: rest, .member =>
      (items fuel false rest).map fun (items, rest) => (.sequence p items, rest)
    | .blockMapping :: rest, .block | .blockMapping :: rest, .member =>
      (entries fuel rest).map fun (es, rest) => (.mapping p es, rest)
    | .dash :: rest, .member =>
      (items fuel true (.dash :: rest)).map fun (items, rest) => (.sequence p items, rest)
    | _, _ => if p = {} then none else some (.omitted p, ts)
termination_by structural fuel => fuel

/-- The node in front of tokens, which may be left out. -/
def slot : Nat → Context → List Token → List Token → Option (Tree × List Token)
  | 0, _, _, _ => none
  | fuel + 1, context, stops, ts =>
    if stopsAt stops ts then some (.omitted {}, ts) else node fuel context ts
termination_by structural fuel => fuel

/-- The value in front of tokens, which has a mark in front of it. -/
def value : Nat → Context → List Token → List Token → Option (Tree × List Token)
  | 0, _, _, _ => none
  | fuel + 1, context, stops, ts =>
    match ts with
    | .value :: rest => slot fuel context stops rest
    | _ => some (.omitted {}, ts)
termination_by structural fuel => fuel

/-- The key in front of tokens and the value behind it. -/
def entry : Nat → Context → List Token → List Token → Option ((Tree × Tree) × List Token)
  | 0, _, _, _ => none
  | fuel + 1, context, stops, ts => do
    let (k, rest) ← slot fuel context stops ts
    let (v, rest) ← value fuel context stops rest
    return ((k, v), rest)
termination_by structural fuel => fuel

/-- The single entry in front of tokens, which is an item of its own. The token in the place of a
key that has been left out is passed over. -/
def lone : Nat → List Token → Option ((Tree × Tree) × List Token)
  | 0, _ => none
  | fuel + 1, ts => do
    let stops := flowStops .closeBracket
    let (k, rest) ← if stopsAt stops ts then some (.omitted {}, ts.drop 1) else node fuel .flow ts
    let (v, rest) ← value fuel .flow stops rest
    return ((k, v), rest)
termination_by structural fuel => fuel

/-- The items behind dashes. A sequence with the margin of its key ends where there is no dash. -/
def items : Nat → Bool → List Token → Option (List Tree × List Token)
  | 0, _, _ => none
  | fuel + 1, isShared, ts =>
    match ts with
    | .dash :: rest => do
      let (n, rest) ← slot fuel .block (itemStops isShared) rest
      let (ns, rest) ← items fuel isShared rest
      return (n :: ns, rest)
    | _ =>
      match isShared, ts with
      | true, _ => some ([], ts)
      | false, .blockEnd :: rest => some ([], rest)
      | false, _ => none
termination_by structural fuel => fuel

/-- The entries of an indented mapping. -/
def entries : Nat → List Token → Option (List (Tree × Tree) × List Token)
  | 0, _ => none
  | fuel + 1, ts =>
    match ts with
    | .key :: rest => do
      let (e, rest) ← entry fuel .member memberStops rest
      let (es, rest) ← entries fuel rest
      return (e :: es, rest)
    | .blockEnd :: rest => some ([], rest)
    | _ => none
termination_by structural fuel => fuel

/-- The items up to a bracket. -/
def flowItems : Nat → List Token → Option (List Tree × List Token)
  | 0, _ => none
  | fuel + 1, ts =>
    match ts with
    | .closeBracket :: rest => some ([], rest)
    | _ => do
      let (n, rest) ← match ts with
        | .key :: rest => (lone fuel rest).map fun (e, rest) => (Tree.mapping {} [e], rest)
        | _ => node fuel .flow ts
      match rest with
      | .closeBracket :: rest => return ([n], rest)
      | .comma :: rest =>
        let (ns, rest) ← flowItems fuel rest
        return (n :: ns, rest)
      | _ => none
termination_by structural fuel => fuel

/-- The entries up to a brace. One may be a key alone. -/
def flowEntries : Nat → List Token → Option (List (Tree × Tree) × List Token)
  | 0, _ => none
  | fuel + 1, ts =>
    match ts with
    | .closeBrace :: rest => some ([], rest)
    | _ => do
      let (e, rest) ← match ts with
        | .key :: rest => entry fuel .flow (flowStops .closeBrace) rest
        | _ => (node fuel .flow ts).map fun (k, rest) => ((k, Tree.omitted {}), rest)
      match rest with
      | .closeBrace :: rest => return ([e], rest)
      | .comma :: rest =>
        let (es, rest) ← flowEntries fuel rest
        return (e :: es, rest)
      | _ => none
termination_by structural fuel => fuel

end

/-- The tree of tokens, if they are those of a single document. Directives stand only in front of
the mark that starts it. -/
def Tree.ofTokens? (ts : List Token) : Option Tree :=
  let fuel := 4 * ts.length + 4
  let root : Option (Tree × List Token) := match ts.dropWhile (· == .directive) with
    | .documentStart :: rest => slot fuel .block [.directive, .documentStart, .documentEnd] rest
    | [] => if ts = [] then some (.omitted {}, []) else none
    | t :: rest => if stopsAt [.directive] ts then none else node fuel .block (t :: rest)
  match root with
  | some (tree, rest) => if rest.all (· == .documentEnd) then some tree else none
  | none => none

end Enumerant.Yaml
