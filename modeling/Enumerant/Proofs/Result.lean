/-!
# Results of steps

A run of steps that can fail gives a result exactly if each step gives one, and a result of all of
them is the last one's.
-/

namespace Enumerant

variable {ε α β σ : Type} {f : σ → α → Except ε σ} {a : α} {as bs : List α} {s s' : σ}

theorem exists_of_map_eq_ok {x : Except ε α} {g : α → β} {b : β} (h : x.map g = .ok b) :
    ∃ a, x = .ok a ∧ g a = b := by
  cases x with
  | error fault => cases h
  | ok a => exact ⟨a, rfl, Except.ok.inj h⟩

theorem mapM_ok {f : α → Except ε β} {g : α → β} (h : ∀ a ∈ as, f a = .ok (g a)) :
    as.mapM f = .ok (as.map g) := by
  induction as with
  | nil => rfl
  | cons a as ih =>
    obtain ⟨ha, has⟩ := List.forall_mem_cons.mp h
    rw [List.mapM_cons, ha, ih has]
    rfl

theorem foldlM_cons_of_ok (h : f s a = .ok s') (as : List α) :
    (a :: as).foldlM f s = as.foldlM f s' := by
  rw [List.foldlM_cons, h]
  rfl

theorem foldlM_append_of_ok (h : as.foldlM f s = .ok s') (bs : List α) :
    (as ++ bs).foldlM f s = bs.foldlM f s' := by
  rw [List.foldlM_append, h]
  rfl

theorem exists_of_foldlM_append (h : (as ++ bs).foldlM f s = .ok s') :
    ∃ t, as.foldlM f s = .ok t ∧ bs.foldlM f t = .ok s' := by
  cases ht : as.foldlM f s with
  | error fault =>
    rw [List.foldlM_append, ht] at h
    cases h
  | ok t => exact ⟨t, rfl, (foldlM_append_of_ok ht bs).symm.trans h⟩

theorem exists_of_foldlM_cons (h : (a :: as).foldlM f s = .ok s') :
    ∃ t, f s a = .ok t ∧ as.foldlM f t = .ok s' := by
  cases ht : f s a with
  | error fault =>
    rw [List.foldlM_cons, ht] at h
    cases h
  | ok t => exact ⟨t, rfl, (foldlM_cons_of_ok ht as).symm.trans h⟩

/-- What every step keeps holds at the end. -/
theorem foldlM_keeps {P : σ → Prop} (hstep : ∀ {s a s'}, P s → f s a = .ok s' → P s')
    (hs : P s) (h : as.foldlM f s = .ok s') : P s' := by
  induction as generalizing s with
  | nil =>
    cases h
    exact hs
  | cons a as ih =>
    obtain ⟨t, ht, hrest⟩ := exists_of_foldlM_cons h
    exact ih (hstep hs ht) hrest

end Enumerant
