import Enumerant.Yaml.Node
import Enumerant.Yaml.Tree

/-!
# Reading YAML

A text is one document, which is one node. What its tree means is settled part by part: a reference
means what the part with its anchor means, a tag settles what kind of node stands behind it, and the
keys of a mapping are distinct. How often references are followed has a limit, as each may be
followed by many more.
-/

namespace Enumerant.Yaml

/-- A tag of its own kind, without what marks it as one: the exclamation mark in front of it, and a
second one if there is more behind it. -/
def localTag? (tag : String) : Option String :=
  match tag.toList with
  | '!' :: '!' :: c :: cs => some (String.ofList (c :: cs))
  | '!' :: cs => some (String.ofList cs)
  | _ => none

/-- What a scalar stands for. -/
def ofScalar? (tag : Option String) (text : String) (isPlain : Bool) : Option Node :=
  match tag with
  | some t => Node.ofTagged? t text.toList
  | none => if isPlain then Node.ofPlain? text.toList else some (.text text)

/-- Whether no two entries have the same key. -/
def areDistinct : List (Node × Node) → Bool
  | [] => true
  | (key, _) :: es => es.all (fun e => !(e.1 == key)) && areDistinct es

/-! ### Meaning -/

/-- How deep the collections of a document may nest. -/
def depthLimit : Nat :=
  128

/-- What may fail, with the number of references that may still be followed. -/
abbrev Meaning := StateT Nat Option

/-- What a reference within a tree refers to. -/
def follow (root : Tree) (anchor : Nat) : Meaning Tree := do
  let count ← get
  if count = 0 then failure
  else
    set (count - 1)
    root.anchored? anchor

/-- What a part of a tree means, whose collections nest at most to a depth. A tag of its own kind
takes the place of the other tags of the same node and of the keys in it. -/
def meaning (root : Tree) (depth : Nat) (isTagged : Bool) (part : Tree) : Meaning Node := do
  let (part, isTagged) ← match part with
    | .reference anchor => do pure (← follow root anchor, false)
    | _ => pure (part, isTagged)
  let mark := if isTagged then none else part.properties.tag.bind localTag?
  let isTagged := isTagged || mark.isSome
  let content ← match part, depth with
    | .scalar p text isPlain, _ => ofScalar? (if isTagged then none else p.tag) text isPlain
    | .sequence _ items, depth + 1 => .sequence <$> items.mapM (meaning root depth false)
    | .mapping _ entries, depth + 1 => do
      let entries ← entries.mapM fun (key, value) => do
        return (← meaning root depth isTagged key, ← meaning root depth false value)
      if areDistinct entries then pure (.mapping entries) else failure
    | _, _ => failure
  match mark with
  | some "" => failure
  | some tag => return .tagged tag content
  | none => return content
termination_by structural depth

/-- What a tree means. -/
def Tree.meaning? (t : Tree) : Option Node :=
  ((meaning t depthLimit false t).run (100 * t.events)).map Prod.fst

/-- The meaning of a text, unless the text is malformed. -/
def parse? (text : String) : Option Node :=
  ((tokens? text.toList).bind Tree.ofTokens?).bind Tree.meaning?

end Enumerant.Yaml
