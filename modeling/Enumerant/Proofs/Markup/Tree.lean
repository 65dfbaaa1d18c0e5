import Enumerant.Markup.Event

/-!
# Documents as trees

The events of a document come in the order of its text. Where it is complete, they are those of
nodes (`exists_nodes_of_complete`): a start tag opens an element, and the first end tag that no
element in its content has taken closes it. A part of a document is read along the tree, and a place
in it is told by the elements around it (`Leads`).
-/

namespace Enumerant.Markup

/-! ### Nodes -/

/-- A piece of content. -/
inductive Node where
  | text (raw : List Char)
  | empty (name : String) (attributes : List Char)
  | element (name : String) (attributes : List Char) (content : List Node)

namespace Node

/-- What holds of a node because it holds of all nodes in its content. -/
@[elab_as_elim, induction_eliminator]
theorem induction {motive : Node → Prop} (text : ∀ raw, motive (.text raw))
    (empty : ∀ name attributes, motive (.empty name attributes))
    (element : ∀ name attributes content, (∀ n ∈ content, motive n) →
      motive (.element name attributes content)) : ∀ n, motive n
  | .text raw => text raw
  | .empty name attributes => empty name attributes
  | .element name attributes content =>
    element name attributes content fun n _ => induction text empty element n

end Node

mutual

/-- The events of a node. -/
def Node.events : Node → List Event
  | .text raw => [.text raw]
  | .empty name attributes => [.opening ⟨name, attributes, true⟩]
  | .element name attributes content =>
    .opening ⟨name, attributes, false⟩ :: (eventsAll content ++ [.closing name])

/-- The events of nodes, one after another. -/
def eventsAll : List Node → List Event
  | [] => []
  | n :: ns => n.events ++ eventsAll ns

end

@[simp]
theorem eventsAll_nil : eventsAll [] = [] := by
  rw [eventsAll]

@[simp]
theorem eventsAll_cons (n : Node) (ns : List Node) :
    eventsAll (n :: ns) = n.events ++ eventsAll ns := by
  rw [eventsAll]

@[simp]
theorem eventsAll_append (ns ms : List Node) :
    eventsAll (ns ++ ms) = eventsAll ns ++ eventsAll ms := by
  induction ns with
  | nil => rfl
  | cons n ns ih => simp [ih]

/-- The events in front of a place within nodes, and the names of the elements around it. -/
inductive Leads : List Node → List Event → List String → Prop
  | here (before after : List Node) : Leads (before ++ after) (eventsAll before) []
  | inside {content : List Node} {front : List Event} {path : List String}
    (before after : List Node) (name : String) (attributes : List Char)
    (h : Leads content front path) :
    Leads (before ++ .element name attributes content :: after)
      (eventsAll before ++ .opening ⟨name, attributes, false⟩ :: front) (name :: path)

/-! ### Documents -/

/-- The events of nodes, and of the ends of the elements around them with the nodes that follow. -/
inductive Closes : List String → List Event → Prop
  | done (ns : List Node) : Closes [] (eventsAll ns)
  | close {name : String} {elements : List String} {es : List Event} (ns : List Node)
    (h : Closes elements es) : Closes (name :: elements) (eventsAll ns ++ .closing name :: es)

variable {name : String} {elements : List String} {es : List Event}

theorem Closes.node (h : Closes elements es) (n : Node) : Closes elements (n.events ++ es) := by
  cases h with
  | done ns =>
    rw [← eventsAll_cons]
    exact .done (n :: ns)
  | close ns h =>
    rw [← List.append_assoc, ← eventsAll_cons]
    exact .close (n :: ns) h

/-- A tag, in front of what follows it and of what closes its element. -/
theorem Closes.opening {tag : Tag}
    (h : Closes (if tag.isEmpty then elements else tag.name :: elements) es) :
    Closes elements (.opening tag :: es) := by
  obtain ⟨name, attributes, isEmpty⟩ := tag
  cases isEmpty with
  | true => exact h.node (.empty name attributes)
  | false =>
    cases h with
    | @close _ _ es ns h =>
      have hnode := h.node (.element name attributes ns)
      rwa [Node.events, List.cons_append, List.append_assoc, List.singleton_append] at hnode

/-- What a step of reading does to the elements that are open. -/
theorem closes_of_markup? {cs : List Char} {step : Step} (h : markup? elements cs = some step)
    (hes : Closes step.elements es) : Closes elements (step.event.toList ++ es) := by
  unfold markup? at h
  split at h
  case h_1 =>
    obtain ⟨rest, -, rfl⟩ := Option.map_eq_some_iff.1 h
    exact hes
  case h_2 =>
    obtain ⟨rest, -, rfl⟩ := Option.map_eq_some_iff.1 h
    exact hes
  case h_3 =>
    split at h
    case h_1 =>
      split at h
      case h_1 =>
        split at h
        case isTrue =>
          cases h
          exact .close [] hes
        case isFalse => cases h
      case h_2 => cases h
    case h_2 => cases h
  case h_4 =>
    split at h
    case h_1 =>
      cases h
      exact hes.opening
    case h_2 => cases h

theorem closes_of_complete {document : List Char}
    (h : eventsWithin elements document = (es, .complete)) : Closes elements es := by
  fun_induction eventsWithin elements document generalizing es
  case case1 elements document hdocument =>
    -- the end of the text is that of the document only if no element is open
    cases elements with
    | nil =>
      cases h
      exact .done []
    | cons name elements => simp at h
  case case2 => simp at h
  case case3 elements document cs hdocument step hstep more ih =>
    obtain ⟨rfl, hending⟩ := Prod.mk.inj h
    exact closes_of_markup? hstep (ih (Prod.ext rfl hending))
  case case4 elements document c cs hc hdocument raw more ih =>
    obtain ⟨rfl, hending⟩ := Prod.mk.inj h
    exact (ih (Prod.ext rfl hending)).node (.text _)

/-- **A complete document is a tree.** -/
theorem exists_nodes_of_complete {document : List Char} (h : events document = (es, .complete)) :
    ∃ ns, es = eventsAll ns := by
  have hcloses : Closes [] es := by
    unfold events at h
    split at h
    · exact closes_of_complete h
    · exact closes_of_complete h
  cases hcloses with
  | done ns => exact ⟨ns, rfl⟩

end Enumerant.Markup
