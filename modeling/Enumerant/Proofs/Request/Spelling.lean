import Mathlib.Data.List.TakeWhile
import Mathlib.Data.Set.List
import Enumerant.Proofs.Request.Cells
import Enumerant.Proofs.Text.Trimming

/-!
# How requests are written

The content of a line is cut at its commas and every part is trimmed (`cells`). Conversely a line
with given cells is a way to write them, with blanks around each of them and a comment behind
(`Spelling`). Every line is written in some way (`exists_spelling`) and the words of any of them are
its cells (`cells_text`), so that what a line asks for can be told from either.
-/

namespace Enumerant.Request

open Text

variable {line : List Char} {number : ℕ} {r : Request}

/-! ### Cells -/

/-- The parts of the content of a line between commas, without blanks at their ends. -/
def cells (line : List Char) : List (List Char) :=
  ((content line).splitOn ',').map trim

/-- A word on a line, with the blanks around it. -/
structure Cell where
  before : Blanks
  word : List Char
  behind : Blanks
  plain : ∀ c ∈ word, c ≠ ',' ∧ c ≠ '#'
  not_blank_head : ∀ c ∈ word.head?, isBlank c = false
  not_blank_last : ∀ c ∈ word.getLast?, isBlank c = false

def Cell.text (e : Cell) : List Char :=
  e.before.text ++ (e.word ++ e.behind.text)

/-- A way to write words on a line. -/
structure Spelling where
  cells : List Cell
  cells_ne : cells ≠ []
  comment : List Char
  opens : ∀ c ∈ comment.head?, c = '#'

namespace Spelling

/-- The text in front of the comment. -/
def body (f : Spelling) : List Char :=
  [','].intercalate (f.cells.map Cell.text)

def text (f : Spelling) : List Char :=
  f.body ++ f.comment

def words (f : Spelling) : List (List Char) :=
  f.cells.map Cell.word

end Spelling

theorem ne_of_isBlank {c : Char} (h : isBlank c) : c ≠ ',' ∧ c ≠ '#' := by
  rw [isBlank_iff] at h
  constructor <;> rintro rfl <;> simp at h

theorem Cell.plain_text (e : Cell) : ∀ c ∈ e.text, c ≠ ',' ∧ c ≠ '#' := by
  intro c hc
  rcases List.mem_append.mp hc with hc | hc
  · exact ne_of_isBlank (e.before.blank c hc)
  · rcases List.mem_append.mp hc with hc | hc
    · exact e.plain c hc
    · exact ne_of_isBlank (e.behind.blank c hc)

theorem Cell.trim_text (e : Cell) : trim e.text = e.word :=
  trim_eq_iff.mpr ⟨⟨e.before, e.behind, rfl⟩, e.not_blank_head, e.not_blank_last⟩

/-- A text without commas and comments is a cell. -/
theorem exists_cell (cs : List Char) (h : ∀ c ∈ cs, c ≠ ',' ∧ c ≠ '#') :
    ∃ e : Cell, e.text = cs := by
  obtain ⟨⟨b, b', hcs⟩, hhead, hlast⟩ := trim_eq_iff.mp (rfl : trim cs = trim cs)
  exact ⟨⟨b, trim cs, b', fun c hc => h c (mem_of_mem_trim hc), hhead, hlast⟩, hcs.symm⟩

theorem cells_eq (line : List Char) :
    cells line = ((line.takeWhile (· != '#')).splitOn ',').map trim := by
  have hcomma : ∀ c, isBlank c → (c == ',') = false := fun c hc => by
    simpa using (ne_of_isBlank hc).1
  rw [cells, List.splitOn_eq_splitOnP, List.splitOn_eq_splitOnP, ← fields_eq_splitOnP,
    ← fields_eq_splitOnP, content, map_trim_fields_trim hcomma]

theorem Spelling.takeWhile_text (f : Spelling) : f.text.takeWhile (· != '#') = f.body := by
  have hbody : ∀ c ∈ f.body, (c != '#') = true :=
    forall_mem_intercalate (List.forall_mem_singleton.mpr rfl) <|
      List.forall_mem_map.mpr fun e _ c hc => bne_iff_ne.mpr (e.plain_text c hc).2
  exact takeWhile_append_eq hbody fun c hc => by simp [f.opens c hc]

/-- The cells of a line are the words that are written on it. -/
theorem cells_text (f : Spelling) : cells f.text = f.words := by
  rw [cells_eq, f.takeWhile_text, Spelling.body, List.splitOn_intercalate, List.map_map]
  · exact List.map_congr_left fun e _ => e.trim_text
  · exact List.forall_mem_map.mpr fun e _ hcomma => (e.plain_text _ hcomma).1 rfl
  · simpa using f.cells_ne

/-- Every line is written in some way. -/
theorem exists_spelling (line : List Char) : ∃ f : Spelling, f.text = line := by
  have hcells : ∀ cs ∈ (line.takeWhile (· != '#')).splitOn ',', ∃ e : Cell, e.text = cs := by
    intro cs hcs
    rw [List.splitOn_eq_splitOnP, ← fields_eq_splitOnP] at hcs
    refine exists_cell cs fun c hc => ⟨?_, ?_⟩
    · simpa using not_separates_of_mem_fields hcs hc
    · simpa using List.mem_takeWhile_imp (mem_of_mem_fields hcs hc)
  obtain ⟨es, hes⟩ := (Set.ext_iff.mp (Set.range_list_map Cell.text) _).mpr hcells
  have hne : es ≠ [] := by
    rintro rfl
    exact List.splitOn_ne_nil _ _ hes.symm
  have hopens : ∀ c ∈ (line.dropWhile (· != '#')).head?, c = '#' := by
    intro c hc
    have hnot := List.head?_dropWhile_not (· != '#') line
    rw [hc] at hnot
    simpa using hnot
  refine ⟨⟨es, hne, line.dropWhile (· != '#'), hopens⟩, ?_⟩
  rw [Spelling.text, Spelling.body, hes, List.intercalate_splitOn, List.takeWhile_append_dropWhile]

/-! ### Requests -/

theorem parse_eq_map_ofFields (line : List Char) (number : ℕ) :
    parse line number = if content line = [] then .ok none
      else ((ofFields (cells line)).mapError (⟨number, ·⟩)).map some := by
  rw [parse, cells, List.splitOn_eq_splitOnP, ← fields_eq_splitOnP]
  cases ofFields ((fields (· == ',') (content line)).map trim) <;> rfl

theorem Reads.content_ne (h : Reads (cells line) r) : content line ≠ [] := by
  intro hnil
  have hcells : cells line = [[]] := by rw [cells, hnil]; rfl
  have hgroup := h.group
  rw [hcells] at hgroup
  exact h.group_ne (String.toList_inj.mp hgroup.symm)

theorem parse_eq_ok_none_iff : parse line number = .ok none ↔ content line = [] := by
  rw [parse_eq_map_ofFields]
  split
  case isTrue h => exact iff_of_true rfl h
  case isFalse h => cases ofFields (cells line) <;> exact iff_of_false nofun h

theorem parse_eq_ok_some_iff : parse line number = .ok (some r) ↔ Reads (cells line) r := by
  rw [parse_eq_map_ofFields]
  split
  case isTrue h => exact iff_of_false nofun fun hreads => hreads.content_ne h
  case isFalse =>
    change _ ↔ IsOutcome (cells line) (.ok r)
    rw [← ofFields_eq_iff]
    cases ofFields (cells line) <;> simp [Except.map, Except.mapError]

theorem parse_eq_error_iff {fault : Fault} : parse line number = .error fault ↔
    content line ≠ [] ∧ fault.line = number ∧ FailsFirst (cells line) fault.cause := by
  obtain ⟨l, cause⟩ := fault
  rw [parse_eq_map_ofFields]
  split
  case isTrue h => exact iff_of_false nofun fun hfault => hfault.1 h
  case isFalse h =>
    change _ ↔ _ ∧ _ ∧ IsOutcome (cells line) (.error cause)
    rw [← ofFields_eq_iff, and_iff_right h]
    cases ofFields (cells line) <;> simp [Except.map, Except.mapError, eq_comm]

/-- **Which request a line asks for.** A line without content asks for nothing. A line asks for a
request just if its cells do, and if they do not, it is told what is wrong with them first. So a
request is read from every line on which it is spelled, and from no other. -/
theorem parse_iff_cells (line : List Char) (number : ℕ) :
    (parse line number = .ok none ↔ content line = []) ∧
      (∀ r, parse line number = .ok (some r) ↔ Reads (cells line) r) ∧
      (∀ fault, parse line number = .error fault ↔
        content line ≠ [] ∧ fault.line = number ∧ FailsFirst (cells line) fault.cause) ∧
      ∀ r, parse line number = .ok (some r) ↔
        ∃ f : Spelling, f.text = line ∧ Reads f.words r := by
  refine ⟨parse_eq_ok_none_iff, fun r => parse_eq_ok_some_iff, fun fault => parse_eq_error_iff,
    fun r => parse_eq_ok_some_iff.trans ⟨fun h => ?_, ?_⟩⟩
  · obtain ⟨f, rfl⟩ := exists_spelling line
    exact ⟨f, rfl, cells_text f ▸ h⟩
  · rintro ⟨f, rfl, h⟩
    exact (cells_text f).symm ▸ h

end Enumerant.Request
