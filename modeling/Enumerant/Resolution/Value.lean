import Enumerant.Integer.Numeral
import Enumerant.Schema

/-!
# Values of members

The value of a member is given, or it comes from one other member: from the one before it, with
counting wrapped at the end of the range of values, or from the one that it names, which may stand
behind it. Every member has a slot for what is known of its value. Passes over all slots, first to
last, settle those that can be settled from the others, each for good, until a pass settles none;
the slots that are pending then stay so. `settle` ends because a pass that changes anything leaves
fewer slots pending (`count_pending_pass`).
-/

namespace Enumerant.Resolution

/-- Where the value of a member comes from. -/
inductive Origin where
  /-- The value is known. -/
  | given (value : Int)
  /-- The value is what comes next after that of another member. -/
  | successor (index : Nat)
  /-- The value is that of another member. -/
  | copy (index : Nat)
  /-- There is no value. -/
  | unknown
  deriving DecidableEq, Repr

/-- The index of the member of a name. -/
def indexOf? (members : List Member) (name : String) : Option Nat :=
  members.findIdx? (·.name == name)

/-- Where the value of the member at an index comes from. -/
def origin (members : List Member) (index : Nat) : Origin :=
  match members[index]? with
  | none => .unknown
  | some m =>
    match m.value with
    | .literal value _ => .given value
    | .implicit => if index = 0 then .given 0 else .successor (index - 1)
    | .reference name =>
      match indexOf? members name with
      | some target => .copy target
      | none => .unknown
    | .unevaluated _ => .unknown

/-- A value with the number of references between a member and the first member on its way that is
no reference. -/
structure Valued where
  value : Int
  depth : Nat
  deriving DecidableEq, Repr

/-- What is known of the value of a member. -/
inductive Slot where
  /-- Nothing yet. -/
  | pending
  /-- The value. -/
  | found (valued : Valued)
  /-- That there is none. -/
  | dropped
  deriving DecidableEq, Repr

namespace Slot

/-- The value in a slot. -/
def valued? : Slot → Option Valued
  | found v => some v
  | pending | dropped => none

/-- What is known of a member before the first pass. -/
def initial (m : Member) : Slot :=
  match m.value with
  | .literal value _ => found ⟨value, 0⟩
  | .unevaluated _ => dropped
  | .implicit | .reference _ => pending

end Slot

/-! ### Passes -/

/-- What the slots tell about a pending member at an index. The successor of a member without a
value stays pending, while a reference to one is dropped. -/
def outcome (members : List Member) (slots : List Slot) (index : Nat) : Slot :=
  match origin members index with
  | .given value => .found ⟨value, 0⟩
  | .successor before =>
    match slots[before]? with
    | some (.found v) => .found ⟨wrapped (v.value + 1), 0⟩
    | _ => .pending
  | .copy target =>
    match slots[target]? with
    | some (.found v) => .found ⟨v.value, v.depth + 1⟩
    | some .dropped => .dropped
    | _ => .pending
  | .unknown => .dropped

/-- The slots with the one at an index settled, if it is pending and can be settled. -/
def visit (members : List Member) (slots : List Slot) (index : Nat) : List Slot :=
  if slots[index]? = some .pending then slots.set index (outcome members slots index) else slots

/-- The slots after all of them were visited in order, each seeing what was settled before it. -/
def pass (members : List Member) (slots : List Slot) : List Slot :=
  (List.range slots.length).foldl (visit members) slots

theorem count_pending_visit (members : List Member) (slots : List Slot) (index : Nat) :
    visit members slots index = slots ∨
      (visit members slots index).count .pending < slots.count .pending := by
  unfold visit
  split
  case isTrue hp =>
    obtain ⟨hi, hg⟩ := List.getElem?_eq_some_iff.mp hp
    by_cases ho : outcome members slots index = .pending
    · exact .inl (by rw [ho, ← hg, List.set_getElem_self])
    · have hpos : 0 < slots.count .pending :=
        List.count_pos_iff.mpr (hg ▸ List.getElem_mem hi)
      refine .inr ?_
      rw [List.count_set hi, hg]
      simp only [beq_self_eq_true, beq_iff_eq, ho, if_true, if_false]
      omega
  case isFalse => exact .inl rfl

/-- Visits that change anything leave fewer slots pending. -/
theorem count_pending_visits (members : List Member) (indices : List Nat) (slots : List Slot) :
    indices.foldl (visit members) slots = slots ∨
      (indices.foldl (visit members) slots).count .pending < slots.count .pending := by
  induction indices generalizing slots with
  | nil => exact .inl rfl
  | cons i is ih =>
    rw [List.foldl_cons]
    rcases count_pending_visit members slots i with hv | hv
    · rw [hv]
      exact ih slots
    · rcases ih (visit members slots i) with hf | hf
      · exact .inr (by rw [hf]; exact hv)
      · exact .inr (Nat.lt_trans hf hv)

/-- A pass that changes anything leaves fewer slots pending. -/
theorem count_pending_pass {members : List Member} {slots : List Slot}
    (h : pass members slots ≠ slots) :
    (pass members slots).count .pending < slots.count .pending :=
  (count_pending_visits members _ slots).resolve_left h

/-- The slots after as many passes as change anything. -/
def settle (members : List Member) (slots : List Slot) : List Slot :=
  if pass members slots = slots then slots else settle members (pass members slots)
termination_by slots.count .pending
decreasing_by exact count_pending_pass ‹_›

/-- All that can be known of the values of members. -/
def settled (members : List Member) : List Slot :=
  settle members (members.map Slot.initial)

end Enumerant.Resolution
