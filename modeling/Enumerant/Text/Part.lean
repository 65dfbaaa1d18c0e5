/-!
# Parts of lists

Cutting a list at its ends and at places within: what precedes a part, what follows it, and what
lies between separators. All of it is stated for lists of any kind and used for texts.
-/

namespace Enumerant.Text

variable {α : Type}

/-! ### Within a list -/

/-- The parts of a list between its separators; there is one more of them than separators. -/
def fields (separates : α → Bool) : List α → List (List α)
  | [] => [[]]
  | a :: as =>
    if separates a then [] :: fields separates as
    else
      match fields separates as with
      | [] => [[a]]
      | f :: fs => (a :: f) :: fs

/-- Whether one text occurs within another. -/
def contains [BEq α] (part : List α) : List α → Bool
  | [] => part.isEmpty
  | a :: as => part.isPrefixOf (a :: as) || contains part as

/-- What stands before the first occurrence of a text. -/
def upTo [BEq α] (part : List α) : List α → List α
  | [] => []
  | a :: as => if part.isPrefixOf (a :: as) then [] else a :: upTo part as

/-- A text with every occurrence of one part replaced by another, read from the left. The number
tells how many characters of the last occurrence are still to be passed over. -/
def replacedFrom [BEq α] (part other : List α) (skip : Nat) : List α → List α
  | [] => []
  | a :: as =>
    match skip with
    | n + 1 => replacedFrom part other n as
    | 0 =>
      if part.isPrefixOf (a :: as) then other ++ replacedFrom part other (part.length - 1) as
      else a :: replacedFrom part other 0 as

/-- A list with as many elements as given, from an index on, replaced by others. There is none if
the list does not hold them all. -/
def splice? (start count : Nat) (new as : List α) : Option (List α) :=
  if start + count ≤ as.length then some (as.take start ++ new ++ as.drop (start + count)) else none

/-! ### At the ends -/

/-- What follows a text that stands in front of another. -/
def after? [BEq α] : List α → List α → Option (List α)
  | [], as => some as
  | _ :: _, [] => none
  | p :: ps, a :: as => if p == a then after? ps as else none

/-- What precedes a text that stands at the end of another. -/
def before? [BEq α] (tail as : List α) : Option (List α) :=
  (after? tail.reverse as.reverse).map List.reverse

/-- What two texts have in common in front. -/
def commonPrefix [BEq α] : List α → List α → List α
  | a :: as, b :: bs => if a == b then a :: commonPrefix as bs else []
  | _, _ => []

theorem length_lt_of_after? [BEq α] {p : α} {ps as rest : List α}
    (h : after? (p :: ps) as = some rest) : rest.length < as.length := by
  -- The first element of the prefix accounts for the difference; the others need not.
  have aux : ∀ {ps as rest : List α}, after? ps as = some rest → rest.length ≤ as.length := by
    intro ps
    induction ps with
    | nil => intro as rest h; simp [after?] at h; simp [h]
    | cons q qs ih =>
      intro as rest h
      cases as with
      | nil => simp [after?] at h
      | cons a as =>
        simp only [after?] at h
        split at h
        · have := ih h
          simp; omega
        · simp at h
  cases as with
  | nil => simp [after?] at h
  | cons a as =>
    simp only [after?] at h
    split at h
    · have := aux h
      simp; omega
    · simp at h

/-- A text with every repetition of a prefix taken off its front. -/
def withoutRepeated [BEq α] (front as : List α) : List α :=
  match front with
  | [] => as
  | p :: ps =>
    match _h : after? (p :: ps) as with
    | none => as
    | some rest => withoutRepeated (p :: ps) rest
termination_by as.length
decreasing_by exact length_lt_of_after? _h

/-- A text without a suffix, unless nothing else would be left. -/
def withoutSuffix [BEq α] (tail as : List α) : List α :=
  if tail.isEmpty then as
  else
    match before? tail as with
    | some (a :: rest) => a :: rest
    | _ => as

end Enumerant.Text
