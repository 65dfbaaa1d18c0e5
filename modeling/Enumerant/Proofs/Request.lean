import Mathlib.Data.List.Basic
import Mathlib.Data.List.Infix
import Enumerant.Proofs.Request.Cells
import Enumerant.Proofs.Text.Trimming
import Enumerant.Request.Line
import Enumerant.Text.Lines

/-!
# What a line asks for

A line asks for what its content asks for (`parse_content`), so neither its comment nor its line
break matters, and where it stands matters only to the wording of a fault (`parse_eq`).
-/

namespace Enumerant

variable {c : Char} {cs ds line : List Char} {number : ℕ}

namespace Text

/-- The break of a line is blank. -/
theorem exists_eq_withoutBreak_append (cs : List Char) :
    ∃ ds, (∀ d ∈ ds, isBlank d) ∧ cs = withoutBreak cs ++ ds := by
  rw [withoutBreak]
  split
  case h_1 rest h =>
    exact ⟨['\r', '\n'], List.all_eq_true.mp rfl, by rw [← List.reverse_inj, h]; simp⟩
  case h_2 rest h =>
    exact ⟨['\n'], List.all_eq_true.mp rfl, by rw [← List.reverse_inj, h]; simp⟩
  case h_3 => exact ⟨[], by simp, by simp⟩

end Text

namespace Request

open Text

/-! ### Contents -/

/-- Blanks behind a line are no part of its content. -/
theorem content_append_of_forall (h : ∀ d ∈ ds, isBlank d) (cs : List Char) :
    content (cs ++ ds) = content cs := by
  rw [content, List.takeWhile_append]
  split
  case isTrue hlen =>
    have hall := (List.takeWhile_prefix (· != '#')).eq_of_length hlen
    rw [trim_append_of_forall fun d hd => h d ((List.takeWhile_sublist _).mem hd), content, hall]
  case isFalse => rfl

theorem content_withoutBreak (cs : List Char) : content (withoutBreak cs) = content cs := by
  obtain ⟨ds, hds, heq⟩ := exists_eq_withoutBreak_append cs
  conv_rhs => rw [heq]
  exact (content_append_of_forall hds _).symm

/-- The break of a line is no part of its content. -/
theorem newline_not_mem_content (h : '\n' ∉ line.dropLast) : '\n' ∉ content line := by
  obtain ⟨rest, hrest⟩ := List.takeWhile_prefix (l := line) (· != '#')
  refine newline_not_mem_trim fun hmem => h ?_
  rcases rest with - | ⟨d, rest⟩
  · rw [List.append_nil] at hrest
    rwa [hrest] at hmem
  · rw [← hrest, List.dropLast_append_of_ne_nil (List.cons_ne_nil d rest)]
    exact List.mem_append_left _ (List.mem_of_mem_dropLast hmem)

theorem content_content (line : List Char) : content (content line) = content line := by
  have hall : ∀ c ∈ content line, c != '#' := fun c hc =>
    List.mem_takeWhile_imp (p := (· != '#')) (mem_of_mem_trim hc)
  conv_lhs => rw [content, List.takeWhile_eq_self_iff.mpr hall]
  exact trim_trim _

/-- A line asks for what its content asks for. -/
theorem parse_content (line : List Char) (number : ℕ) :
    parse (content line) number = parse line number := by
  rw [parse, content_content, ← parse]

/-! ### Requests and causes -/

/-- The request on a line, if there is a good one. -/
def request? (line : List Char) : Option Request :=
  match parse line 1 with
  | .ok request => request
  | .error _ => none

/-- What is wrong with a line, if anything is. -/
def cause? (line : List Char) : Option Cause :=
  match parse line 1 with
  | .ok _ => none
  | .error fault => some fault.cause

/-- The number of a line does not matter to what the line asks for. -/
theorem parse_eq (line : List Char) (number : ℕ) :
    parse line number = match cause? line with
      | some cause => .error ⟨number, cause⟩
      | none => .ok (request? line) := by
  rw [cause?, request?, parse, parse]
  split
  · rfl
  · cases ofFields ((fields (· == ',') (content line)).map trim) <;> rfl

theorem request?_eq_of_content_eq (h : content cs = content ds) : request? cs = request? ds := by
  rw [request?, ← parse_content, h, parse_content, ← request?]

theorem cause?_eq_of_content_eq (h : content cs = content ds) : cause? cs = cause? ds := by
  rw [cause?, ← parse_content, h, parse_content, ← cause?]

/-- A line asks for nothing, or for a group, or it is at fault. -/
theorem request?_cases (line : List Char) :
    content line = [] ∧ request? line = none ∧ cause? line = none ∨
      content line ≠ [] ∧ (∃ r, request? line = some r) ∧ cause? line = none ∨
      content line ≠ [] ∧ request? line = none ∧ ∃ cause, cause? line = some cause := by
  rw [cause?, request?, parse]
  by_cases h : content line = []
  · rw [if_pos h]
    exact .inl ⟨h, rfl, rfl⟩
  · rw [if_neg h]
    cases ofFields ((fields (· == ',') (content line)).map trim) with
    | ok r => exact .inr (.inl ⟨h, ⟨r, rfl⟩, rfl⟩)
    | error cause => exact .inr (.inr ⟨h, rfl, cause, rfl⟩)

/-! ### Wordings -/

/-- The cells that a fault names are cut out of the content. -/
theorem newline_not_mem_message_of_fails {fs : List (List Char)} {cause : Cause}
    (hcells : ∀ f ∈ fs, '\n' ∉ f) (h : Fails fs cause) : '\n' ∉ cause.message.toList := by
  have hgetD : ∀ i, '\n' ∉ fs.getD i [] := by
    intro i
    rw [List.getD_eq_getElem?_getD]
    rcases hi : fs[i]? with - | f
    · exact List.not_mem_nil
    · exact hcells f (List.mem_of_getElem? hi)
  -- A message is made of fixed words, a count and the text of one cell.
  have hcount : '\n' ∉ (toString fs.length).toList := by
    intro hmem
    have hdigit := Nat.isDigit_of_mem_toDigits (b := 10) (c := '\n') (n := fs.length)
      (by decide) (by decide) (by simpa using hmem)
    exact absurd hdigit (by decide)
  have hbetween : ∀ (front behind : String) (i : ℕ), '\n' ∉ front.toList → '\n' ∉ behind.toList →
      '\n' ∉ (front ++ String.ofList (fs.getD i []) ++ behind).toList := by
    intro front behind i hfront hbehind
    simp only [String.toList_append, String.toList_ofList, List.mem_append, not_or]
    exact ⟨⟨hfront, hgetD i⟩, hbehind⟩
  cases h with
  | tooManyFields =>
    change '\n' ∉ ("expected at most 3 fields, got " ++ toString fs.length).toList
    rw [String.toList_append, List.mem_append, not_or]
    exact ⟨by decide, hcount⟩
  | missingGroup => decide
  | invalidGroup => exact hbetween _ _ 0 (by decide) (by decide)
  | invalidFlag => exact hbetween _ _ 1 (by decide) (by decide)
  | invalidStyle => exact hbetween _ _ 2 (by decide) (by decide)

/-- The wording of what is wrong with a line keeps to one line. -/
theorem newline_not_mem_message {cause : Cause} (hline : '\n' ∉ content line)
    (h : cause? line = some cause) : '\n' ∉ cause.message.toList := by
  rw [cause?, parse] at h
  by_cases hnil : content line = []
  · rw [if_pos hnil] at h
    cases h
  rw [if_neg hnil] at h
  rcases hfields : ofFields ((fields (· == ',') (content line)).map trim) with cause' | r
  · rw [hfields] at h
    obtain rfl := Option.some.inj h
    refine newline_not_mem_message_of_fails ?_ (ofFields_eq_iff.mp hfields).fails
    exact List.forall_mem_map.mpr fun f hf hmem =>
      hline (mem_of_mem_fields hf (mem_of_mem_trim hmem))
  · rw [hfields] at h
    cases h

end Request

end Enumerant
