import Enumerant.Proofs.Patch.Effect

/-!
# Runs that fail

Whatever a run is asked to do, it shows nothing and writes nothing before its last step that may
fail (`clean_perform`). Only a session shows things as it goes along. The one mode that writes at
all is that of patching, with a path to write to (`keeps_perform`), and `report_run` says for a
whole run what follows from its status.
-/

namespace Enumerant.Program

open Run

variable {schema : Schema} {settings : Settings} {o : Options} {input : ByteArray}

/-! ### Modes -/

/-- What fails outside of a session leaves no trace. -/
theorem clean_perform (hmode : o.mode ≠ .interactive) (input : ByteArray) (settings : Settings)
    (schema : Schema) : Clean (perform o input settings schema) := by
  rw [perform]
  cases hm : o.mode with
  | listGroups => exact (Sure.forM fun g => sure_display _).clean
  | dump group => exact (still_ofLogged _).bind_clean fun e => (sure_display _).clean
  | describe group value =>
    refine (still_ofLogged _).bind_clean fun e => ?_
    exact (still_ofExcept _).bind_clean fun names => (sure_display _).clean
  | patch path =>
    exact (clean_patch schema settings path o.output).bind_sure fun patching => sure_note _
  | interactive => exact absurd hm hmode
  | batch =>
    refine still_directory.bind_clean fun d => (still_ofExcept _).bind_clean fun bytes => ?_
    refine (still_ofLogged _).bind_clean fun output => ?_
    exact ((sure_display _).bind fun _ => sure_note _).clean

theorem keeps_converse (schema : Schema) (settings : Settings) (bytes : ByteArray) :
    Keeps (converse schema settings bytes) := by
  rw [converse]
  refine (keeps_tell _).bind fun _ => (keeps_display _).bind fun _ => ?_
  split <;> exact fun _ => rfl

theorem keeps_patch_none (schema : Schema) (settings : Settings) (path : String) :
    Keeps (patch schema settings path none) := by
  rw [patch]
  refine still_directory.keeps.bind fun d => (still_ofExcept _).keeps.bind fun old => ?_
  refine (still_ofLogged _).keeps.bind fun patched => Keeps.bind ?_ fun backup => fun _ => rfl
  exact fun _ => rfl

/-- No file is written unless one is patched and there is a path to write to. -/
theorem keeps_perform (hmode : ∀ path, o.mode = .patch path → o.output = none) (input : ByteArray)
    (settings : Settings) (schema : Schema) : Keeps (perform o input settings schema) := by
  rw [perform]
  cases hm : o.mode with
  | listGroups => exact Keeps.forM fun g => keeps_display _
  | dump group => exact (still_ofLogged _).keeps.bind fun e => keeps_display _
  | describe group value =>
    refine (still_ofLogged _).keeps.bind fun e => ?_
    exact (still_ofExcept _).keeps.bind fun names => keeps_display _
  | patch path =>
    dsimp only
    rw [hmode path hm]
    exact (keeps_patch_none schema settings path).bind fun patching => keeps_note _
  | interactive => exact keeps_converse schema settings input
  | batch =>
    refine still_directory.keeps.bind fun d => (still_ofExcept _).keeps.bind fun bytes => ?_
    refine (still_ofLogged _).keeps.bind fun output => ?_
    exact (keeps_display _).bind fun _ => keeps_note _

/-- A batch is shown as a whole, or not at all. -/
theorem exec_perform_batch {bytes : ByteArray} {w : World} (hmode : o.mode = .batch)
    (hbytes : requests o w.directory input = .ok bytes) :
    (perform o input settings schema).exec w =
      let batch := Batch.run schema settings bytes
      let told := { w with events := w.events ++ batch.events }
      match batch.value with
      | none => (.error (.requestsUnread .notText), told)
      | some output =>
        (.ok (), { told with
          shown := w.shown ++ output.text
          notes := w.notes ++ [batchNote output.summary] }) := by
  rw [perform, hmode]
  dsimp only
  rw [exec_bind, exec_directory]
  dsimp only
  rw [exec_bind, exec_ofExcept, hbytes]
  dsimp only
  rw [exec_bind, exec_ofLogged, answers]
  cases (Batch.run schema settings bytes).value <;> rfl

/-! ### Whole runs -/

/-- What is prepared for a run touches nothing. -/
theorem clean_steps (hmode : o.mode ≠ .interactive) (input : ByteArray) :
    Clean (steps o input) := by
  rw [steps]
  refine still_directory.bind_clean fun d => (still_ofLogged _).bind_clean fun prepared => ?_
  exact clean_perform hmode input prepared.1 prepared.2

theorem keeps_steps (hmode : ∀ path, o.mode = .patch path → o.output = none) (input : ByteArray) :
    Keeps (steps o input) := by
  rw [steps]
  refine still_directory.keeps.bind fun d => (still_ofLogged _).keeps.bind fun prepared => ?_
  exact keeps_perform hmode input prepared.1 prepared.2

/-- A run that patches a file to a path overwrites what is there. -/
theorem overwrites_of_exec_steps {path output : String} {w w' : World}
    (hmode : o.mode = .patch path) (houtput : o.output = some output)
    (h : (steps o input).exec w = (.ok (), w')) :
    ∃ text backup, w.directory.Overwrites w'.directory output text backup := by
  rw [steps] at h
  obtain ⟨d, w₁, hd, h⟩ := exists_of_exec_bind h
  obtain ⟨⟨settings, schema⟩, w₂, hprepared, h⟩ := exists_of_exec_bind h
  dsimp only at h
  rw [perform, hmode] at h
  dsimp only at h
  obtain ⟨patching, w₃, hpatch, hnote⟩ := exists_of_exec_bind h
  rw [houtput] at hpatch
  obtain ⟨old, patched, -, -, -, hover, -⟩ := overwrites_of_exec_patch hpatch
  -- Neither what is prepared nor what is noted touches the directory.
  have h₁ := still_directory.keeps w
  have h₂ := (still_ofLogged (prepare o d)).keeps w₁
  have h₃ := keeps_note (patchNotes o.output patching) w₃
  rw [hd] at h₁
  rw [hprepared] at h₂
  rw [hnote] at h₃
  dsimp only at h₁ h₂ h₃
  rw [h₂, h₁] at hover
  exact ⟨patched.text, patching.backup, h₃ ▸ hover⟩

theorem run_eq {result : Except Failure Unit} {d : Directory} {w : World}
    (h : (steps o input).exec { directory := d } = (result, w)) :
    run o d input =
      { events := w.events
        value :=
          { shown := w.shown
            notes := w.notes
            directory := w.directory
            failure := failure? result } } := by
  rw [run, h]

/-- **What runs leave behind.** A run that fails leaves all files as they are, and if it is no
session it shows nothing. A run that succeeds changes no files but the one that it patched to and
the copy of that one. -/
theorem report_run (filter : Console.Filter) (o : Options) (d : Directory) (input : ByteArray) :
    let run := run o d input
    let report := report filter run
    (report.status ≠ 0 →
      run.value.directory = d ∧ (o.mode ≠ .interactive → report.shown = "")) ∧
    (report.status = 0 →
      run.value.directory.folders = d.folders ∧
      ∀ file, run.value.directory.files.lookup file ≠ d.files.lookup file →
        ∃ path output, o.mode = .patch path ∧ o.output = some output ∧
          (d.fileAt? output = some file ∨ d.fileAt? (Patch.backupPath output) = some file)) := by
  rcases h : (steps o input).exec { directory := d } with ⟨failure | ⟨⟩, w⟩
  · rw [run_eq h]
    refine ⟨fun _ => ?_, fun hstatus => absurd hstatus (Nat.succ_ne_zero 1)⟩
    -- A session shows what it says as it goes along, but no failing run writes.
    by_cases hmode : o.mode = .interactive
    · have hkeeps := keeps_steps (o := o) (by simp [hmode]) input { directory := d }
      rw [h] at hkeeps
      exact ⟨hkeeps, fun hne => absurd hmode hne⟩
    · have hclean := clean_steps hmode input { directory := d } failure (congrArg Prod.fst h)
      rw [h] at hclean
      exact ⟨hclean.1, fun _ => hclean.2⟩
  · rw [run_eq h]
    refine ⟨fun hstatus => absurd rfl hstatus, fun _ => ?_⟩
    dsimp only
    -- Only one mode writes anything, and then only with a path to write to.
    by_cases hmode : ∀ path, o.mode = .patch path → o.output = none
    · have hkeeps := keeps_steps hmode input { directory := d }
      rw [h] at hkeeps
      dsimp only at hkeeps
      rw [hkeeps]
      exact ⟨rfl, fun file hne => absurd rfl hne⟩
    · push Not at hmode
      obtain ⟨path, hmode, houtput⟩ := hmode
      obtain ⟨output, houtput⟩ := Option.ne_none_iff_exists'.mp houtput
      obtain ⟨text, backup, hover⟩ := overwrites_of_exec_steps hmode houtput h
      refine ⟨hover.folders_eq, fun file hne => ⟨path, output, hmode, houtput, ?_⟩⟩
      by_contra hnot
      obtain ⟨hfile, hcopy⟩ := not_or.mp hnot
      refine hne (hover.lookup_eq file hfile fun copy hmem => ?_)
      rw [hover.copy_eq hmem]
      exact hcopy

end Enumerant.Program
