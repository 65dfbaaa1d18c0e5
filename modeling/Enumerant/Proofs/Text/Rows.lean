import Mathlib.Algebra.BigOperators.Group.List.Basic
import Mathlib.Data.Char
import Mathlib.Data.List.DropRight
import Enumerant.Patch.Marker
import Enumerant.Proofs.Text.Lines
import Enumerant.Rendering.Block

/-!
# Rows of generated code

Generated code is read row by row, as text: `bodyOf` are the rows between the braces of an
enumeration. Where every line of a block keeps to its row, the rows are the lines of the block
(`rows_textOf_of_forall`), and so are its lines in the sense of regions (`lines_textOf`). A line
with a break in it makes more rows than one, and none of them gets lost: the rows of all members
stand in the body in any case (`isPrefix_bodyOf`).
-/

namespace Enumerant

open Text Rendering

variable {s t l : String} {ls front mid behind : List String}

namespace Text

/-! ### Rows -/

/-- The rows of a text: its lines without their line breaks. Behind the last break stands one more
row, be it empty. -/
def rows (text : String) : List String :=
  (text.toList.splitOn '\n').map String.ofList

theorem rows_append_newline (s t : String) : rows (s ++ "\n" ++ t) = rows s ++ rows t := by
  have htext : (s ++ "\n" ++ t).toList = s.toList ++ '\n' :: t.toList := by simp
  rw [rows, htext, List.splitOn_append_cons_self, List.map_append]
  rfl

theorem rows_eq_singleton (h : '\n' ∉ s.toList) : rows s = [s] := by
  rw [rows, List.splitOn_eq_singleton h, List.map_singleton, String.ofList_toList]

theorem length_rows (s : String) : (rows s).length = s.toList.count '\n' + 1 := by
  rw [rows, List.length_map]
  induction s.toList with
  | nil => rfl
  | cons c cs ih =>
    rw [List.splitOn_cons_eq_if_modifyHead, List.count_cons]
    split <;> simp [ih]

/-- The rows of a block are those of its lines. -/
theorem rows_textOf (ls : List String) : rows (textOf ls) = ls.flatMap rows ++ [""] := by
  induction ls with
  | nil => rfl
  | cons l ls ih =>
    have htext : textOf (l :: ls) = l ++ "\n" ++ textOf ls := rfl
    rw [htext, rows_append_newline, ih, List.flatMap_cons, List.append_assoc]

theorem flatMap_rows_of_forall (h : ∀ l ∈ ls, '\n' ∉ l.toList) : ls.flatMap rows = ls := by
  rw [List.flatMap_congr fun l hl => rows_eq_singleton (h l hl), List.flatMap_singleton']

theorem rows_textOf_of_forall (h : ∀ l ∈ ls, '\n' ∉ l.toList) :
    rows (textOf ls) = ls ++ [""] := by
  rw [rows_textOf, flatMap_rows_of_forall h]

/-- Lines that make as many rows as there are lines hold no breaks. -/
theorem forall_of_length_flatMap_rows_le (h : (ls.flatMap rows).length ≤ ls.length) :
    ∀ l ∈ ls, '\n' ∉ l.toList := by
  have hlength : ∀ ls : List String, ls.length ≤ (ls.flatMap rows).length := by
    intro ls
    rw [List.length_flatMap]
    induction ls with
    | nil => exact Nat.le_refl 0
    | cons l ls ih => simpa [length_rows, Nat.add_comm] using by omega
  induction ls with
  | nil => exact fun l hl => absurd hl List.not_mem_nil
  | cons l ls ih =>
    rw [List.flatMap_cons, List.length_append, length_rows, List.length_cons] at h
    have hrest := hlength ls
    refine List.forall_mem_cons.mpr ⟨List.count_eq_zero.mp (by omega), ih (by omega)⟩

/-! ### Lines -/

theorem isLine_append_newline (h : '\n' ∉ l.toList) : IsLine (l ++ "\n") :=
  ⟨l.toList, '\n', by simp, fun _ hc => beq_false_of_ne (ne_of_mem_of_not_mem hc h), rfl⟩

theorem lines_append_newline (h : '\n' ∉ l.toList) : lines (l ++ "\n") = [l ++ "\n"] := by
  rw [lines, pieces_of_isClosed (isLine_append_newline h), List.map_singleton, String.ofList_toList]

/-- The lines of a block, with their breaks, are those that it was made of. -/
theorem lines_textOf (h : ∀ l ∈ ls, '\n' ∉ l.toList) : lines (textOf ls) = ls.map (· ++ "\n") := by
  induction ls with
  | nil => rfl
  | cons l ls ih =>
    obtain ⟨hl, hls⟩ := List.forall_mem_cons.mp h
    have htext : (textOf (l :: ls)).toList = (l ++ "\n").toList ++ (textOf ls).toList := by
      rw [← String.toList_append]
      rfl
    rw [lines, htext, pieces_append (isLine_append_newline hl), List.map_cons, String.ofList_toList,
      List.map_cons, ← ih hls]
    rfl

/-! ### Bodies -/

/-- Whether a row opens a body: it ends with a brace. -/
def opensBody (row : String) : Bool :=
  row.toList.getLast? = some '\x7b'

theorem opensBody_append (s : String) (ht : t.toList ≠ []) : opensBody (s ++ t) = opensBody t := by
  rw [opensBody, String.toList_append, List.getLast?_append_of_ne_nil _ ht]
  rfl

/-- The rows between the first that opens a body and the last that closes an enumeration. -/
def bodyOf (rows : List String) : List String :=
  ((rows.dropWhile (!opensBody ·)).tail.rdropWhile (· != "\x7d;")).dropLast

theorem rdropWhile_append_cons {p : String → Bool} (hl : p l = false) (ls ls' : List String) :
    (ls ++ l :: ls').rdropWhile p = ls ++ l :: ls'.rdropWhile p := by
  have hreverse : (ls ++ l :: ls').reverse = ls'.reverse ++ l :: ls.reverse := by simp
  rw [List.rdropWhile, hreverse, List.dropWhile_append]
  split
  case isTrue hempty =>
    have hnil : ls'.rdropWhile p = [] := by
      rw [List.rdropWhile, List.isEmpty_iff.mp hempty, List.reverse_nil]
    rw [hnil, List.dropWhile_cons_of_neg (by simp [hl])]
    simp
  case isFalse => simp [List.rdropWhile]

theorem bodyOf_parts (hfront : ∀ l ∈ front, opensBody l = false) (hl : opensBody l)
    (mid behind : List String) :
    bodyOf (front ++ l :: (mid ++ "\x7d;" :: behind)) =
      mid ++ ("\x7d;" :: behind.rdropWhile (· != "\x7d;")).dropLast := by
  have hdrop : (front ++ l :: (mid ++ "\x7d;" :: behind)).dropWhile (!opensBody ·) =
      l :: (mid ++ "\x7d;" :: behind) := by
    rw [List.dropWhile_append_of_pos fun u hu => by rw [hfront u hu]; rfl,
      List.dropWhile_cons_of_neg (by simp [hl])]
  rw [bodyOf, hdrop, List.tail_cons, rdropWhile_append_cons (by simp),
    List.dropLast_append_of_ne_nil (List.cons_ne_nil _ _)]

/-- The rows of a body are found if none behind it closes an enumeration. -/
theorem bodyOf_eq (hfront : ∀ l ∈ front, opensBody l = false) (hl : opensBody l)
    (hbehind : ∀ l ∈ behind, l ≠ "\x7d;") :
    bodyOf (front ++ l :: (mid ++ "\x7d;" :: behind)) = mid := by
  have hnil : behind.rdropWhile (· != "\x7d;") = [] :=
    List.rdropWhile_eq_nil_iff.mpr fun u hu => by simpa using hbehind u hu
  rw [bodyOf_parts hfront hl, hnil]
  simp

/-- The rows of a body are found in any case, but other ones may be found behind them. -/
theorem isPrefix_bodyOf (hfront : ∀ l ∈ front, opensBody l = false) (hl : opensBody l)
    (mid behind : List String) : mid <+: bodyOf (front ++ l :: (mid ++ "\x7d;" :: behind)) := by
  rw [bodyOf_parts hfront hl]
  exact List.prefix_append _ _

end Text

end Enumerant
