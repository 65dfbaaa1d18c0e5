import Enumerant.Text.Lines
import Mathlib.Data.List.Basic

/-!
# Lines put together and divided again

A text that is made of lines has these lines again if each of them ends with its only line break,
save the last one. `IsLined` states this of a list of lines, and `isLined_append_iff` divides it.
-/

namespace Enumerant.Text

/-! ### Pieces -/

section Pieces

variable {α : Type} {closes : α → Bool} {p as : List α} {ps qs : List (List α)}

/-- Whether the last element of a piece is the only one that closes it. -/
def IsClosed (closes : α → Bool) (p : List α) : Prop :=
  ∃ init a, p = init ++ [a] ∧ (∀ b ∈ init, closes b = false) ∧ closes a = true

theorem IsClosed.cons {a : α} (ha : closes a = false) (h : IsClosed closes p) :
    IsClosed closes (a :: p) := by
  obtain ⟨init, b, rfl, hinit, hb⟩ := h
  exact ⟨a :: init, b, rfl, List.forall_mem_cons.mpr ⟨ha, hinit⟩, hb⟩

/-- A piece ends where it is closed. -/
theorem pieces_append (h : IsClosed closes p) :
    pieces closes (p ++ as) = p :: pieces closes as := by
  obtain ⟨init, a, rfl, hinit, ha⟩ := h
  induction init with
  | nil => simp [pieces, ha]
  | cons b init ih =>
    obtain ⟨hb, hinit⟩ := List.forall_mem_cons.mp hinit
    rw [List.cons_append, List.cons_append, pieces, hb, ih hinit]
    rfl

theorem pieces_of_isClosed (h : IsClosed closes p) : pieces closes p = [p] := by
  rw [← List.append_nil p, pieces_append h, List.append_nil]
  rfl

/-- Pieces that are closed are found again. -/
theorem pieces_flatten_append (h : ∀ p ∈ ps, IsClosed closes p) :
    pieces closes (ps.flatten ++ as) = ps ++ pieces closes as := by
  induction ps with
  | nil => rfl
  | cons p ps ih =>
    obtain ⟨hp, hps⟩ := List.forall_mem_cons.mp h
    rw [List.flatten_cons, List.append_assoc, pieces_append hp, ih hps, List.cons_append]

/-- The first piece is closed if there is another one, and the others are those of what follows. -/
theorem exists_of_pieces_eq_cons (h : pieces closes as = p :: ps) :
    (ps ≠ [] → IsClosed closes p) ∧ ∃ bs, as = p ++ bs ∧ pieces closes bs = ps := by
  induction as generalizing p with
  | nil => simp [pieces] at h
  | cons a as ih =>
    rw [pieces] at h
    split at h
    case isTrue ha =>
      obtain ⟨rfl, rfl⟩ := List.cons.inj h
      exact ⟨fun _ => ⟨[], a, rfl, by simp, ha⟩, as, rfl, rfl⟩
    case isFalse ha =>
      split at h
      case h_1 hnil =>
        obtain ⟨rfl, rfl⟩ := List.cons.inj h
        obtain rfl : as = [] := by rw [← flatten_pieces closes as, hnil, List.flatten_nil]
        exact ⟨fun hne => absurd rfl hne, [], rfl, rfl⟩
      case h_2 q qs hq =>
        obtain ⟨rfl, rfl⟩ := List.cons.inj h
        obtain ⟨hclosed, bs, rfl, hbs⟩ := ih hq
        exact ⟨fun hne => (hclosed hne).cons (by simpa using ha), bs, rfl, hbs⟩

/-- All pieces but the last one are closed. -/
theorem isClosed_of_pieces_eq_append (h : pieces closes as = ps ++ qs) (hqs : qs ≠ []) :
    (∀ p ∈ ps, IsClosed closes p) ∧ pieces closes qs.flatten = qs := by
  induction ps generalizing as with
  | nil => exact ⟨by simp, by rw [← List.nil_append qs, ← h, flatten_pieces]⟩
  | cons p ps ih =>
    obtain ⟨hp, bs, -, hbs⟩ := exists_of_pieces_eq_cons h
    obtain ⟨hps, hqs'⟩ := ih hbs
    exact ⟨List.forall_mem_cons.mpr ⟨hp (by simp [hqs]), hps⟩, hqs'⟩

/-- All pieces are closed if the last element closes. -/
theorem isClosed_of_mem_pieces {a : α} (ha : closes a = true) (h : p ∈ pieces closes (as ++ [a])) :
    IsClosed closes p := by
  induction as generalizing p with
  | nil =>
    obtain rfl : p = [a] := by simpa [pieces, ha] using h
    exact ⟨[], a, rfl, by simp, ha⟩
  | cons b as ih =>
    rw [List.cons_append, pieces] at h
    split at h
    case isTrue hb =>
      rcases List.mem_cons.mp h with rfl | h
      · exact ⟨[], b, rfl, by simp, hb⟩
      · exact ih h
    case isFalse hb =>
      split at h
      case h_1 hnil =>
        have hflatten := flatten_pieces closes (as ++ [a])
        simp [hnil] at hflatten
      case h_2 q qs hq =>
        rcases List.mem_cons.mp h with rfl | h
        · exact (ih (hq ▸ List.mem_cons_self)).cons (by simpa using hb)
        · exact ih (hq ▸ List.mem_cons_of_mem _ h)

/-- A piece is divided no further. -/
theorem pieces_of_mem_pieces (h : p ∈ pieces closes as) : pieces closes p = [p] := by
  obtain ⟨ps, qs, heq⟩ := List.append_of_mem h
  obtain ⟨-, hrest⟩ := isClosed_of_pieces_eq_append heq (List.cons_ne_nil _ _)
  obtain ⟨hclosed, bs, hbs, hqs⟩ := exists_of_pieces_eq_cons hrest
  rcases qs with - | ⟨q, qs⟩
  · simpa using hrest
  · exact pieces_of_isClosed (hclosed (List.cons_ne_nil q qs))

/-- No element of a piece but its last one closes it. -/
theorem closes_of_mem_dropLast (h : p ∈ pieces closes as) : ∀ a ∈ p.dropLast, closes a = false := by
  fun_induction pieces closes as generalizing p with
  | case1 => simp at h
  | case2 a as ha ih =>
    rcases List.mem_cons.mp h with rfl | h
    · simp
    · exact ih h
  | case3 a as ha hnil ih =>
    obtain rfl := List.mem_singleton.mp h
    simp
  | case4 a as ha q qs hq ih =>
    rcases List.mem_cons.mp h with rfl | h
    · rcases q with - | ⟨b, q⟩
      · simp
      · exact List.forall_mem_cons.mpr ⟨by simpa using ha, ih (hq ▸ List.mem_cons_self)⟩
    · exact ih (hq ▸ List.mem_cons_of_mem q h)

end Pieces

/-! ### Lines -/

variable {ls ls' : List String} {line s : String}

/-- Whether a line ends with its only line break. -/
def IsLine (line : String) : Prop :=
  IsClosed (· == '\n') line.toList

/-- Whether lines are those of the text that they make. -/
def IsLined (ls : List String) : Prop :=
  lines (String.join ls) = ls

/-- The lines of a text are all of it. -/
theorem join_lines (s : String) : String.join (lines s) = s := by
  rw [← String.toList_inj, String.toList_join, lines, List.flatMap_map]
  simp only [String.toList_ofList]
  rw [List.flatMap_id', flatten_pieces]

/-- Lines have their line breaks at the end. -/
theorem isLined_lines (s : String) : IsLined (lines s) := by
  rw [IsLined, join_lines]

theorem toList_lines (s : String) : (lines s).map String.toList = pieces (· == '\n') s.toList := by
  simp [lines, Function.comp_def]

theorem isLined_iff : IsLined ls ↔
    pieces (· == '\n') (ls.map String.toList).flatten = ls.map String.toList := by
  rw [IsLined, ← List.flatMap_def, ← String.toList_join, ← toList_lines]
  constructor
  · intro h
    rw [h]
  · intro h
    exact List.map_injective_iff.mpr (fun _ _ => String.toList_inj.mp) h

/-- Lines in front of others have to end with their line breaks. -/
theorem isLined_append_iff (h : ls' ≠ []) :
    IsLined (ls ++ ls') ↔ (∀ line ∈ ls, IsLine line) ∧ IsLined ls' := by
  rw [isLined_iff, isLined_iff, List.map_append, List.flatten_append]
  have hls : (∀ line ∈ ls, IsLine line) ↔
      ∀ p ∈ ls.map String.toList, IsClosed (· == '\n') p := by
    simp [IsLine]
  rw [hls]
  constructor
  · intro heq
    exact isClosed_of_pieces_eq_append heq (by simpa using h)
  · rintro ⟨hclosed, heq⟩
    rw [pieces_flatten_append hclosed, heq]

/-- Lines are lines one by one. -/
theorem isLined_cons_iff (h : ls ≠ []) : IsLined (line :: ls) ↔ IsLine line ∧ IsLined ls := by
  rw [← List.singleton_append, isLined_append_iff h, List.forall_mem_singleton]

/-- A line of a text is a text of one line. -/
theorem lines_of_mem_lines (h : line ∈ lines s) : lines line = [line] := by
  obtain ⟨p, hp, rfl⟩ := List.mem_map.mp h
  rw [lines, String.toList_ofList, pieces_of_mem_pieces hp, List.map_singleton]

/-- Within a line there is no line break. -/
theorem newline_not_mem_dropLast (h : line ∈ lines s) : '\n' ∉ line.toList.dropLast := by
  obtain ⟨p, hp, rfl⟩ := List.mem_map.mp h
  rw [String.toList_ofList]
  intro hmem
  exact absurd (closes_of_mem_dropLast hp _ hmem) (by decide)

theorem isClosed_of_mem_pieces_newline {p : List Char}
    (h : p ∈ pieces (· == '\n') (s ++ "\n").toList) : IsClosed (· == '\n') p := by
  rw [String.toList_append] at h
  exact isClosed_of_mem_pieces (a := '\n') rfl h

/-- All lines of a text end with their line breaks if the text does. -/
theorem isLine_of_mem_lines (h : line ∈ lines (s ++ "\n")) : IsLine line := by
  obtain ⟨p, hp, rfl⟩ := List.mem_map.mp h
  rw [IsLine, String.toList_ofList]
  exact isClosed_of_mem_pieces_newline hp

/-- A text behind a line break has its lines to itself. -/
theorem lines_append (s t : String) : lines (s ++ "\n" ++ t) = lines (s ++ "\n") ++ lines t := by
  rw [lines, String.toList_append, ← flatten_pieces (· == '\n') (s ++ "\n").toList,
    pieces_flatten_append fun p => isClosed_of_mem_pieces_newline, List.map_append, ← lines,
    ← lines]

end Enumerant.Text
