import Enumerant.Run

/-!
# What runs leave behind

The equations of `exec` say what each step of a run does to the world. What is done before a
failure stays done, so a run leaves no trace when it fails (`Clean`) only if it touches nothing
before its last step that may fail. `Still.bind_clean` and `Clean.bind_sure` show this along the
steps of a run.
-/

namespace Enumerant.Run

variable {α β : Type} {r : Run α} {f : α → Run β} {w : World}

/-! ### Steps -/

@[simp]
theorem exec_pure (a : α) (w : World) : exec (pure a) w = (.ok a, w) :=
  rfl

@[simp]
theorem exec_throw (failure : Failure) (w : World) :
    exec (throw failure : Run α) w = (.error failure, w) :=
  rfl

/-- A failure ends a run. -/
theorem exec_bind (r : Run α) (f : α → Run β) (w : World) :
    exec (r >>= f) w =
      match exec r w with
      | (.ok a, w') => exec (f a) w'
      | (.error failure, w') => (.error failure, w') := by
  rcases h : exec r w with ⟨failure | a, w'⟩
  all_goals
    rw [exec] at h ⊢
    rw [ExceptT.run_bind, StateT.run_bind, h]
    rfl

/-- What comes to something has come through all of its parts. -/
theorem exists_of_exec_bind {b : β} {w' : World} (h : exec (r >>= f) w = (.ok b, w')) :
    ∃ a w₁, exec r w = (.ok a, w₁) ∧ exec (f a) w₁ = (.ok b, w') := by
  rw [exec_bind] at h
  rcases hr : exec r w with ⟨failure | a, w₁⟩
  · rw [hr] at h
    cases h
  · rw [hr] at h
    exact ⟨a, w₁, rfl, h⟩

@[simp]
theorem exec_directory (w : World) : exec directory w = (.ok w.directory, w) :=
  rfl

@[simp]
theorem exec_ofExcept (found : Except Failure α) (w : World) :
    exec (ofExcept found) w = (found, w) := by
  cases found <;> rfl

/-- Telling events adds them to the record. -/
@[simp]
theorem exec_tell (events : List Event) (w : World) :
    exec (tell events) w = (.ok (), { w with events := w.events ++ events }) :=
  rfl

/-- A logged outcome tells its events whether it is a failure or not. -/
@[simp]
theorem exec_ofLogged (found : Logged (Except Failure α)) (w : World) :
    exec (ofLogged found) w = (found.value, { w with events := w.events ++ found.events }) := by
  rw [ofLogged, exec_bind, exec_tell]
  exact exec_ofExcept found.value _

@[simp]
theorem exec_display (text : String) (w : World) :
    exec (display text) w = (.ok (), { w with shown := w.shown ++ text }) :=
  rfl

@[simp]
theorem exec_note (lines : List String) (w : World) :
    exec (note lines) w = (.ok (), { w with notes := w.notes ++ lines }) :=
  rfl

/-- A write that fails leaves the directory alone. -/
theorem exec_write (path : String) (contents : ByteArray) (cause : Directory.Fault → Failure)
    (w : World) :
    exec (write path contents cause) w =
      match w.directory.write path contents with
      | .ok d => (.ok (), { w with directory := d })
      | .error fault => (.error (cause fault), w) := by
  rw [write, exec_bind, exec_directory]
  cases h : w.directory.write path contents <;> simp only [h] <;> rfl

/-! ### Traces -/

/-- Nothing is written, whatever comes of it. -/
def Keeps (r : Run α) : Prop :=
  ∀ w, (exec r w).2.directory = w.directory

/-- Nothing is written or shown, whatever comes of it. -/
def Still (r : Run α) : Prop :=
  ∀ w, (exec r w).2.directory = w.directory ∧ (exec r w).2.shown = w.shown

/-- There is no failure. -/
def Sure (r : Run α) : Prop :=
  ∀ w, ∃ a, (exec r w).1 = .ok a

/-- Nothing is written or shown if it fails. -/
def Clean (r : Run α) : Prop :=
  ∀ w failure, (exec r w).1 = .error failure →
    (exec r w).2.directory = w.directory ∧ (exec r w).2.shown = w.shown

/-- Runs that keep the directory do so one after another. -/
theorem Keeps.bind (hr : Keeps r) (hf : ∀ a, Keeps (f a)) : Keeps (r >>= f) := by
  intro w
  have hw := hr w
  rw [exec_bind]
  generalize exec r w = done at hw ⊢
  obtain ⟨failure | a, w'⟩ := done
  · exact hw
  · exact (hf a w').trans hw

theorem Still.keeps (hr : Still r) : Keeps r :=
  fun w => (hr w).1

/-- A run that does nothing does nothing when it fails. -/
theorem Still.clean (hr : Still r) : Clean r :=
  fun w _ _ => hr w

/-- A run that never fails does nothing when it fails. -/
theorem Sure.clean (hr : Sure r) : Clean r := by
  intro w failure h
  obtain ⟨a, ha⟩ := hr w
  rw [ha] at h
  cases h

/-- Runs that never fail do not do so one after another. -/
theorem Sure.bind (hr : Sure r) (hf : ∀ a, Sure (f a)) : Sure (r >>= f) := by
  intro w
  obtain ⟨a, ha⟩ := hr w
  rw [exec_bind]
  generalize exec r w = done at ha ⊢
  obtain ⟨failure | b, w'⟩ := done
  · cases ha
  · exact hf b w'

/-- What fails behind steps that touch nothing may leave no trace of its own. -/
theorem Still.bind_clean (hr : Still r) (hf : ∀ a, Clean (f a)) : Clean (r >>= f) := by
  intro w failure h
  have hw := hr w
  rw [exec_bind] at h ⊢
  generalize exec r w = done at hw h ⊢
  obtain ⟨failure' | a, w'⟩ := done
  · exact hw
  · obtain ⟨hdirectory, hshown⟩ := hf a w' failure h
    exact ⟨hdirectory.trans hw.1, hshown.trans hw.2⟩

/-- What follows the last step that may fail may do anything. -/
theorem Clean.bind_sure (hr : Clean r) (hf : ∀ a, Sure (f a)) : Clean (r >>= f) := by
  intro w failure h
  have hw := hr w
  rw [exec_bind] at h ⊢
  generalize exec r w = done at hw h ⊢
  obtain ⟨failure' | a, w'⟩ := done
  · exact hw failure' rfl
  · obtain ⟨b, hb⟩ := hf a w'
    rw [hb] at h
    cases h

/-! ### Traces of steps -/

theorem still_directory : Still directory :=
  fun _ => ⟨rfl, rfl⟩

theorem still_ofExcept (found : Except Failure α) : Still (ofExcept found) := by
  intro w
  rw [exec_ofExcept]
  exact ⟨rfl, rfl⟩

theorem still_ofLogged (found : Logged (Except Failure α)) : Still (ofLogged found) := by
  intro w
  rw [exec_ofLogged]
  exact ⟨rfl, rfl⟩

theorem keeps_tell (events : List Event) : Keeps (tell events) :=
  fun _ => rfl

theorem keeps_display (text : String) : Keeps (display text) :=
  fun _ => rfl

theorem sure_display (text : String) : Sure (display text) :=
  fun _ => ⟨(), rfl⟩

theorem keeps_note (lines : List String) : Keeps (note lines) :=
  fun _ => rfl

theorem sure_note (lines : List String) : Sure (note lines) :=
  fun _ => ⟨(), rfl⟩

/-- A loop keeps the directory if each of its rounds does. -/
theorem Keeps.forM {as : List α} {f : α → Run PUnit} (hf : ∀ a, Keeps (f a)) :
    Keeps (as.forM f) := by
  induction as with
  | nil => exact fun _ => rfl
  | cons a as ih => exact (hf a).bind fun _ => ih

/-- A loop never fails if none of its rounds does. -/
theorem Sure.forM {as : List α} {f : α → Run PUnit} (hf : ∀ a, Sure (f a)) :
    Sure (as.forM f) := by
  induction as with
  | nil => exact fun _ => ⟨⟨⟩, rfl⟩
  | cons a as ih => exact (hf a).bind fun _ => ih

end Enumerant.Run
