import Enumerant.Proofs.Text.Code

/-!
# Collapsing blanks as one pass

`collapsed` is defined by the words of a text. `squeeze` gives the same from one pass over the
characters: a blank is a space if no blank came before it, and nothing otherwise. A text may be cut
for a pass (`squeeze_append`), which words may not.
-/

namespace Enumerant.Text

variable {after : Bool} {c : Char} {cs ds : List Char}

/-- A text with each run of blanks made one space; `after` tells whether a blank stands in front. -/
def squeeze (after : Bool) : List Char → List Char
  | [] => []
  | c :: cs =>
    if isBlank c then if after then squeeze true cs else ' ' :: squeeze true cs
    else c :: squeeze false cs

/-- Whether a text ends with a blank; an empty one does if a blank stands in front. -/
def blankAfter (after : Bool) : List Char → Bool
  | [] => after
  | c :: cs => blankAfter (isBlank c) cs

theorem squeeze_nil (after : Bool) : squeeze after [] = [] := rfl

theorem blankAfter_cons : blankAfter after (c :: cs) = blankAfter (isBlank c) cs := rfl

theorem squeeze_cons_of_not_blank (hc : isBlank c = false) :
    squeeze after (c :: cs) = c :: squeeze false cs := by
  simp [squeeze, hc]

theorem squeeze_true_cons_of_blank (hc : isBlank c) : squeeze true (c :: cs) = squeeze true cs := by
  simp [squeeze, hc]

theorem squeeze_false_cons_of_blank (hc : isBlank c) :
    squeeze false (c :: cs) = ' ' :: squeeze true cs := by
  simp [squeeze, hc]

/-- Two texts are squeezed one after the other. -/
theorem squeeze_append (after : Bool) (cs ds : List Char) :
    squeeze after (cs ++ ds) = squeeze after cs ++ squeeze (blankAfter after cs) ds := by
  induction cs generalizing after with
  | nil => rfl
  | cons c cs ih =>
    cases hc : isBlank c
    · rw [List.cons_append, squeeze_cons_of_not_blank hc, squeeze_cons_of_not_blank hc, ih,
        blankAfter_cons, hc, List.cons_append]
    · cases after
      · rw [List.cons_append, squeeze_false_cons_of_blank hc, squeeze_false_cons_of_blank hc, ih,
          blankAfter_cons, hc, List.cons_append]
      · rw [List.cons_append, squeeze_true_cons_of_blank hc, squeeze_true_cons_of_blank hc, ih,
          blankAfter_cons, hc]

/-- Whether a blank came last is told part by part. -/
theorem blankAfter_append (after : Bool) (cs ds : List Char) :
    blankAfter after (cs ++ ds) = blankAfter (blankAfter after cs) ds := by
  induction cs generalizing after with
  | nil => rfl
  | cons c cs ih => exact ih _

/-- A text without blanks stays as it is. -/
theorem squeeze_of_forall (h : ∀ c ∈ cs, isBlank c = false) : squeeze after cs = cs := by
  induction cs generalizing after with
  | nil => rfl
  | cons c cs ih =>
    rw [squeeze_cons_of_not_blank (h c List.mem_cons_self),
      ih fun d hd => h d (List.mem_cons_of_mem c hd)]

theorem blankAfter_of_forall (h : ∀ c ∈ cs, isBlank c = false) (hne : cs ≠ []) :
    blankAfter after cs = false := by
  induction cs generalizing after with
  | nil => exact absurd rfl hne
  | cons c cs ih =>
    rw [blankAfter_cons, h c List.mem_cons_self]
    rcases cs with - | ⟨d, cs⟩
    · rfl
    · exact ih (fun e he => h e (List.mem_cons_of_mem c he)) (List.cons_ne_nil d cs)

/-- Of blanks only spaces are left. -/
theorem eq_space_or_of_mem_squeeze (h : c ∈ squeeze after cs) : c = ' ' ∨ isBlank c = false := by
  induction cs generalizing after with
  | nil => exact absurd h List.not_mem_nil
  | cons d cs ih =>
    cases hd : isBlank d
    · rw [squeeze_cons_of_not_blank hd] at h
      rcases List.mem_cons.mp h with rfl | h
      · exact .inr hd
      · exact ih h
    · cases after
      · rw [squeeze_false_cons_of_blank hd] at h
        rcases List.mem_cons.mp h with rfl | h
        · exact .inl rfl
        · exact ih h
      · rw [squeeze_true_cons_of_blank hd] at h
        exact ih h

/-- No line break is left. -/
theorem newline_not_mem_squeeze : '\n' ∉ squeeze after cs := by
  intro h
  rcases eq_space_or_of_mem_squeeze h with h | h <;> exact absurd h (by decide)

/-- What is left of a text begins with a character exactly if the text does, blanks apart. -/
theorem head?_squeeze_false (hc : isBlank c = false) :
    (squeeze false cs).head? = some c ↔ cs.head? = some c := by
  rcases cs with - | ⟨d, cs⟩
  · rfl
  · cases hd : isBlank d
    · rw [squeeze_cons_of_not_blank hd, List.head?_cons, List.head?_cons]
    · rw [squeeze_false_cons_of_blank hd, List.head?_cons, List.head?_cons, Option.some_inj,
        Option.some_inj]
      refine iff_of_false ?_ ?_ <;> rintro rfl
      · exact absurd hc (by decide)
      · exact absurd hc (by simp [hd])

/-- Blanks in front of words do not count. -/
theorem words_cons_of_blank (hc : isBlank c) : words (c :: cs) = words cs := by
  rw [words.eq_def]
  simp only [hc, if_true]

theorem words_singleton (hc : isBlank c = false) : words [c] = [[c]] := by
  rw [words.eq_def]
  simp only [hc, Bool.false_eq_true, if_false]

theorem words_cons_cons_of_blank {d : Char} (hc : isBlank c = false) (hd : isBlank d) :
    words (c :: d :: cs) = [c] :: words (d :: cs) := by
  rw [words.eq_def]
  simp only [hc, hd, if_true, Bool.false_eq_true, if_false]

/-- A character in front of a word belongs to it. -/
theorem words_cons_cons {d : Char} {w : List Char} {ws : List (List Char)}
    (hc : isBlank c = false) (hd : isBlank d = false) (h : words (d :: cs) = w :: ws) :
    words (c :: d :: cs) = (c :: w) :: ws := by
  rw [words.eq_def]
  simp only [hc, hd, Bool.false_eq_true, if_false, h]

/-- What stands in front of a blank, or at the end of a text, is a word of its own. -/
theorem words_append {ds : List Char} (hcs : ∀ c ∈ cs, isBlank c = false) (hne : cs ≠ [])
    (hds : ∀ d ∈ ds.head?, isBlank d) : words (cs ++ ds) = cs :: words ds := by
  induction cs with
  | nil => exact absurd rfl hne
  | cons c cs ih =>
    obtain ⟨hc, hcs⟩ := List.forall_mem_cons.mp hcs
    rcases cs with - | ⟨e, cs⟩
    · rcases ds with - | ⟨d, ds⟩
      · rw [List.append_nil, words_singleton hc]
        rfl
      · exact words_cons_cons_of_blank hc (hds d rfl)
    · exact words_cons_cons hc (hcs e List.mem_cons_self) (ih hcs (List.cons_ne_nil e cs))

/-- Blanks in front of a text are no part of its words. -/
theorem words_append_of_blank (hcs : ∀ c ∈ cs, isBlank c) (ds : List Char) :
    words (cs ++ ds) = words ds := by
  induction cs with
  | nil => rfl
  | cons c cs ih =>
    obtain ⟨hc, hcs⟩ := List.forall_mem_cons.mp hcs
    rw [List.cons_append, words_cons_of_blank hc, ih hcs]

/-- A text that does not end with a blank has a word. -/
theorem words_ne_nil (h : blankAfter true cs = false) : words cs ≠ [] := by
  induction cs with
  | nil => cases h
  | cons c cs ih =>
    rw [blankAfter_cons] at h
    cases hc : isBlank c
    · rcases cs with - | ⟨d, cs⟩
      · simp [words_singleton hc]
      · have hne := ih (by rwa [blankAfter_cons] at h ⊢)
        cases hd : isBlank d
        · obtain ⟨w, ws, hw⟩ := List.exists_cons_of_ne_nil hne
          simp [words_cons_cons hc hd hw]
        · simp [words_cons_cons_of_blank hc hd]
    · rw [words_cons_of_blank hc]
      exact ih (hc ▸ h)

/-- **One pass collapses** a text that does not end with a blank. -/
theorem collapsed_eq_squeeze (h : blankAfter true cs = false) :
    collapsed cs = squeeze true cs := by
  unfold collapsed
  induction cs with
  | nil => rfl
  | cons c cs ih =>
    rw [blankAfter_cons] at h
    cases hc : isBlank c
    · rw [squeeze_cons_of_not_blank hc]
      rcases cs with - | ⟨d, cs⟩
      · simp [words_singleton hc, List.intercalate, squeeze_nil]
      · have hlast : blankAfter true (d :: cs) = false := by rwa [blankAfter_cons] at h ⊢
        obtain ⟨w, ws, hw⟩ := List.exists_cons_of_ne_nil (words_ne_nil hlast)
        have ih := ih hlast
        rw [hw] at ih
        -- The next character goes on with the word, or a single blank stands for those behind it.
        cases hd : isBlank d
        · rw [squeeze_cons_of_not_blank hd] at ih ⊢
          rw [← ih, words_cons_cons hc hd hw]
          cases ws <;> simp [List.intercalate]
        · rw [squeeze_true_cons_of_blank hd] at ih
          rw [squeeze_false_cons_of_blank hd, ← ih, words_cons_cons_of_blank hc hd, hw]
          simp [List.intercalate]
    · rw [words_cons_of_blank hc, squeeze_true_cons_of_blank hc]
      exact ih (hc ▸ h)

end Enumerant.Text
