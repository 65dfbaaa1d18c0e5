import Enumerant.Proofs.Text.Part
import Enumerant.Text.Blank
import Mathlib.Data.List.DropRight

/-!
# Trimming

What is trimmed has no blank at either end, so trimming again changes nothing (`trim_trim`), and
blanks behind a text make no difference (`trim_append_of_forall`). A text is what stands between two
runs of blanks (`Blanks`) just if it is left by trimming and has no blank at its ends
(`trim_eq_iff`).
-/

namespace Enumerant.Text

variable {c : Char} {cs ds : List Char}

/-! ### Runs of blanks -/

/-- A run of blanks. -/
structure Blanks where
  text : List Char
  blank : ∀ c ∈ text, isBlank c

/-- Blanks in front do not count. -/
theorem Blanks.trimLeft_append (b : Blanks) (cs : List Char) :
    trimLeft (b.text ++ cs) = trimLeft cs :=
  List.dropWhile_append_of_pos b.blank

theorem trimLeft_of_head? (h : ∀ c ∈ cs.head?, isBlank c = false) : trimLeft cs = cs :=
  dropWhile_append_eq (List.forall_mem_nil _) h

/-- What is left begins with something else. -/
theorem head?_trimLeft (cs : List Char) : ∀ c ∈ (trimLeft cs).head?, isBlank c = false := by
  intro c hc
  have hnot := List.head?_dropWhile_not isBlank cs
  rw [Option.mem_def, trimLeft] at hc
  rw [hc] at hnot
  exact hnot

/-- What is taken off is blanks. -/
theorem exists_blanks_append (cs : List Char) : ∃ b : Blanks, cs = b.text ++ trimLeft cs :=
  ⟨⟨cs.takeWhile isBlank, fun _ => List.mem_takeWhile_imp⟩, List.takeWhile_append_dropWhile.symm⟩

/-! ### Trimming -/

theorem trim_cons_space (cs : List Char) : trim (' ' :: cs) = trim cs := by
  simp [trim, trimLeft, isBlank]

theorem isPrefix_trim (cs : List Char) : trim cs <+: trimLeft cs :=
  List.rdropWhile_prefix isBlank (trimLeft cs)

theorem mem_of_mem_trim (h : c ∈ trim cs) : c ∈ cs :=
  (List.dropWhile_sublist isBlank).mem ((isPrefix_trim cs).mem h)

/-- A trimmed text stays on the left. -/
theorem trimLeft_trim (cs : List Char) : trimLeft (trim cs) = trim cs := by
  refine List.dropWhile_eq_self_iff.mpr fun hlen => ?_
  have hlen' := Nat.lt_of_lt_of_le hlen (isPrefix_trim cs).length_le
  rw [(isPrefix_trim cs).getElem hlen]
  exact List.dropWhile_get_zero_not _ _ hlen'

/-- A trimmed text stays. -/
theorem trim_trim (cs : List Char) : trim (trim cs) = trim cs := by
  rw [trim, trimLeft_trim]
  exact List.rdropWhile_idempotent isBlank (trimLeft cs)

/-- Blanks behind do not count. -/
theorem trimRight_append_of_forall (h : ∀ d ∈ ds, isBlank d) (cs : List Char) :
    trimRight (cs ++ ds) = trimRight cs := by
  rw [trimRight, List.reverse_append,
    List.dropWhile_append_of_pos fun d hd => h d (List.mem_reverse.mp hd), ← trimRight]

/-- Blanks behind a text are trimmed. -/
theorem trim_append_of_forall (h : ∀ d ∈ ds, isBlank d) (cs : List Char) :
    trim (cs ++ ds) = trim cs := by
  rw [trim, trimLeft, List.dropWhile_append]
  split
  case isTrue hempty =>
    have hnil : trimLeft cs = [] := List.isEmpty_iff.mp hempty
    rw [List.dropWhile_eq_nil_iff.mpr h, trim, hnil]
  case isFalse =>
    exact trimRight_append_of_forall h (trimLeft cs)

theorem Blanks.trim_append (b : Blanks) (cs : List Char) : trim (b.text ++ cs) = trim cs := by
  rw [trim, b.trimLeft_append, ← trim]

/-- **What trimming leaves.** -/
theorem trim_eq_iff : trim cs = ds ↔
    (∃ b b' : Blanks, cs = b.text ++ (ds ++ b'.text)) ∧
      (∀ c ∈ ds.head?, isBlank c = false) ∧ ∀ c ∈ ds.getLast?, isBlank c = false := by
  constructor
  · rintro rfl
    obtain ⟨b, hb⟩ := exists_blanks_append cs
    obtain ⟨b', hb'⟩ := exists_blanks_append (trimLeft cs).reverse
    refine ⟨⟨b, ⟨b'.text.reverse, fun c hc => b'.blank c (List.mem_reverse.mp hc)⟩, ?_⟩, ?_, ?_⟩
    · rw [trim, trimRight, ← List.reverse_append, ← trimLeft, ← hb', List.reverse_reverse, ← hb]
    · rw [← trimLeft_trim]
      exact head?_trimLeft _
    · rw [trim, trimRight, List.getLast?_reverse]
      exact head?_trimLeft _
  · rintro ⟨⟨b, b', rfl⟩, hhead, hlast⟩
    rw [b.trim_append, trim_append_of_forall b'.blank, trim, trimLeft_of_head? hhead, trimRight,
      ← trimLeft, trimLeft_of_head? (by rwa [List.head?_reverse]), List.reverse_reverse]

/-- Trimming takes blanks off both ends. -/
theorem exists_trim (cs : List Char) : ∃ b b' : Blanks, cs = b.text ++ (trim cs ++ b'.text) :=
  (trim_eq_iff.mp rfl).1

/-- A text whose only line break is its last character has none once it is trimmed. -/
theorem newline_not_mem_trim (h : '\n' ∉ cs.dropLast) : '\n' ∉ trim cs := by
  rcases List.eq_nil_or_concat cs with rfl | ⟨init, c, rfl⟩
  · exact List.not_mem_nil
  rw [List.concat_eq_append, List.dropLast_concat] at h
  intro hmem
  rw [List.concat_eq_append] at hmem
  by_cases hc : isBlank c
  · rw [trim_append_of_forall (List.forall_mem_singleton.mpr hc)] at hmem
    exact h (mem_of_mem_trim hmem)
  · rcases List.mem_append.mp (mem_of_mem_trim hmem) with hinit | hlast
    · exact h hinit
    · rw [← List.mem_singleton.mp hlast] at hc
      exact hc (by decide)

/-! ### Fields -/

/-- Blanks in front of a text are trimmed with its first field. -/
theorem map_trim_fields_append_left {separates : Char → Bool}
    (h : ∀ c, isBlank c → separates c = false) (b : Blanks) (cs : List Char) :
    (fields separates (b.text ++ cs)).map trim = (fields separates cs).map trim := by
  obtain ⟨text, hblank⟩ := b
  induction text with
  | nil => rfl
  | cons c text ih =>
    obtain ⟨hc, htext⟩ := List.forall_mem_cons.mp hblank
    have htrim : ∀ f, trim (c :: f) = trim f := fun f =>
      Blanks.trim_append ⟨[c], List.forall_mem_singleton.mpr hc⟩ f
    rw [List.cons_append, fields_eq_splitOnP, List.splitOnP_cons_eq_if_modifyHead,
      if_neg (by simp [h c hc]), ← fields_eq_splitOnP, ← ih htext]
    cases fields separates (text ++ cs) with
    | nil => rfl
    | cons f fs => rw [List.modifyHead_cons, List.map_cons, List.map_cons, htrim]

/-- Blanks at the ends of a text are trimmed with its fields. -/
theorem map_trim_fields_trim {separates : Char → Bool}
    (h : ∀ c, isBlank c → separates c = false) (cs : List Char) :
    (fields separates (trim cs)).map trim = (fields separates cs).map trim := by
  obtain ⟨b, b', hcs⟩ := exists_trim cs
  obtain ⟨init, last, hfields⟩ := exists_fields_append separates (trim cs)
  have hnone := hfields [] (List.forall_mem_nil _)
  rw [List.append_nil, List.append_nil] at hnone
  conv_rhs => rw [hcs, map_trim_fields_append_left h,
    hfields b'.text fun c hc => h c (b'.blank c hc)]
  rw [hnone, List.map_append, List.map_append, List.map_singleton, List.map_singleton,
    trim_append_of_forall b'.blank]

end Enumerant.Text
