import Enumerant.Program
import Enumerant.Proofs.Patch.Idempotence
import Enumerant.Proofs.Run

/-!
# What patching a file changes

A file is patched step by step, and what one step has written stays if a later one fails. The only
step that may fail behind another that writes is the writing of the patched text behind that of the
copy, and it does not: a file that could be read can be written (`exec_deliver_some`). So nothing
changes if patching fails, and otherwise the text is where it belongs, beside a copy of what was
there (`exec_patch_cases`).
-/

namespace Enumerant

namespace Directory

variable {d d' : Directory} {path name name' file : String} {folder : List String}
  {contents : ByteArray}

/-- The file that a path leads to, there already or not. -/
def fileAt? (d : Directory) (path : String) : Option String :=
  match d.target path with
  | .ok (.file folder name) => some (pathOf (folder ++ [name]))
  | _ => none

theorem Leads.fileAt?_eq (h : d.Leads path folder name) :
    d.fileAt? path = some (pathOf (folder ++ [name])) := by
  rw [fileAt?, h.target_eq]

theorem lookup_put_of_ne (h : name ≠ name') (contents : ByteArray)
    (files : List (String × ByteArray)) :
    (put name contents files).lookup name' = files.lookup name' := by
  induction files with
  | nil => rw [put, List.lookup_cons, beq_false_of_ne h.symm]
  | cons file files ih =>
    obtain ⟨n, old⟩ := file
    rw [put]
    split
    case isTrue hn =>
      subst hn
      rw [List.lookup_cons, List.lookup_cons, beq_false_of_ne h.symm]
    case isFalse => rw [List.lookup_cons, List.lookup_cons, ih]

/-- A file that is put into a folder changes no other one. -/
theorem lookup_withFile_of_ne (h : pathOf (folder ++ [name]) ≠ file) (contents : ByteArray) :
    (d.withFile folder name contents).files.lookup file = d.files.lookup file :=
  lookup_put_of_ne h contents d.files

theorem Leads.pathOf_ne (h : d.Leads path folder name) (hfile : d.fileAt? path ≠ some file) :
    pathOf (folder ++ [name]) ≠ file :=
  fun heq => hfile (heq ▸ h.fileAt?_eq)

theorem pathOf_ne_of_ne (h : name ≠ name') :
    pathOf (folder ++ [name]) ≠ pathOf (folder ++ [name']) := by
  obtain ⟨front, hfront⟩ := exists_pathOf_append folder
  rw [hfront, hfront]
  simpa using h

/-- A directory differs from another in what a path leads to, which is a text now, and in the copy
of what was there, if there was anything. -/
structure Overwrites (d d' : Directory) (path text : String) (backup : Option String) : Prop where
  /-- The path leads to the text. -/
  read_path : d'.read path = .ok text.toUTF8
  /-- There is a copy exactly if there was a file. -/
  backup_eq : backup = if (d.read path).toBool then some (Patch.backupPath path) else none
  /-- The copy has all that was in the file. -/
  read_backup : ∀ old, d.read path = .ok old → d'.read (Patch.backupPath path) = .ok old
  /-- Any other file is as it was. -/
  lookup_eq : ∀ file, d.fileAt? path ≠ some file →
    (∀ copy ∈ backup, d.fileAt? copy ≠ some file) → d'.files.lookup file = d.files.lookup file
  folders_eq : d'.folders = d.folders

/-- A copy stands nowhere but beside what was overwritten. -/
theorem Overwrites.copy_eq {text copy : String} {backup : Option String}
    (h : d.Overwrites d' path text backup) (hcopy : copy ∈ backup) :
    copy = Patch.backupPath path := by
  rw [h.backup_eq, Option.mem_def, Option.ite_none_right_eq_some] at hcopy
  exact (Option.some_inj.mp hcopy.2).symm

end Directory

namespace Patch

open Directory

variable {d d' : Directory} {path text : String} {backup : Option String}

/-- Saving a text is overwriting a file. -/
theorem overwrites_of_save (h : save d path text = .ok (backup, d')) :
    d.Overwrites d' path text backup := by
  cases hread : d.read path with
  | error fault =>
    obtain ⟨folder, name, hleads, rfl, rfl⟩ := (save_eq_ok_iff_of_error hread).mp h
    refine ⟨hleads.read_withFile _, ?_, fun old hold => ?_, fun file hfile _ => ?_, rfl⟩
    · rw [hread]
      rfl
    · rw [hread] at hold
      cases hold
    · exact lookup_withFile_of_ne (hleads.pathOf_ne hfile) _
  | ok old =>
    obtain ⟨folder, name, hleads, hbackup, rfl, rfl⟩ := (save_eq_ok_iff hread).mp h
    -- The copy is put in first, and the text behind it leaves the copy alone.
    have hkept := hleads.withFile hbackup.slash_not_mem old
    have hcopy := (hbackup.withFile hbackup.slash_not_mem old).withFile hleads.slash_not_mem
    have hne : name ≠ name ++ ".backup" := by
      rw [ne_eq, ← String.toList_inj, String.toList_append]
      exact fun heq => absurd (List.self_eq_append_right.mp heq) (by decide)
    refine ⟨hkept.read_withFile _, ?_, fun old' hold => ?_, fun file hfile hother => ?_, rfl⟩
    · rw [hread]
      rfl
    · obtain rfl : old = old' := Except.ok.inj (hread.symm.trans hold)
      refine read_eq_ok_iff.mpr ⟨folder, name ++ ".backup", hcopy _, ?_⟩
      rw [lookup_withFile_of_ne (pathOf_ne_of_ne hne)]
      exact lookup_put_self _ _ _
    · rw [lookup_withFile_of_ne (hleads.pathOf_ne hfile),
        lookup_withFile_of_ne (hbackup.pathOf_ne (hother _ rfl))]

/-- Markers are not at fault when a text cannot be brought to where it goes. -/
theorem deliver_ne_markersFaulty (d : Directory) (output : Option String) (p : Patched)
    (input : String) (fault : Region.Fault) :
    deliver d output p ≠ .error (.markersFaulty input fault) := by
  cases output with
  | none => simp [deliver]
  | some path =>
    rw [deliver, save]
    cases d.read path with
    | error _ => cases d.write path p.text.toUTF8 <;> simp [Except.map]
    | ok old =>
      dsimp only
      cases d.write (backupPath path) old with
      | error _ => simp [Except.map]
      | ok kept =>
        dsimp only
        cases kept.write path p.text.toUTF8 <;> simp [Except.map]

/-- Nothing is generated for a file whose markers do not bound regions. -/
theorem events_patch_of_markersFaulty {schema : Schema} {settings : Settings} {input : String}
    {output : Option String} {fault : Region.Fault}
    (h : (d.patch schema settings input output).value = .error (.markersFaulty input fault)) :
    (d.patch schema settings input output).events = [] := by
  revert h
  rw [Directory.patch]
  cases d.readText input with
  | error readFault => exact fun _ => rfl
  | ok old =>
    dsimp only
    rw [Patch.text]
    cases Region.scan (Text.lines old) with
    | error scanFault => exact fun _ => rfl
    | ok regions => exact fun h => absurd h (deliver_ne_markersFaulty _ _ _ _ _)

end Patch

namespace Program

open Directory Patch

variable {schema : Schema} {settings : Settings} {path text : String}

/-! ### Steps -/

/-- What is written behind the copy can be written, so a failure comes before either is there. -/
theorem exec_deliver_some (path text : String) (w : World) :
    (deliver (some path) text).exec w =
      match save w.directory path text with
      | .ok (backup, d) => (.ok backup, { w with directory := d })
      | .error failure => (.error failure, w) := by
  rw [deliver, Run.exec_bind, keep, Run.exec_bind, Run.exec_directory, save]
  dsimp only
  cases hread : w.directory.read path with
  | error fault =>
    dsimp only
    rw [Run.exec_pure]
    dsimp only
    rw [Run.exec_bind, Run.exec_write]
    cases w.directory.write path text.toUTF8 <;> rfl
  | ok old =>
    dsimp only
    rw [Run.exec_bind, Run.exec_write]
    cases hkept : w.directory.write (backupPath path) old with
    | error fault => rfl
    | ok kept =>
      -- There was a file at the path, and with its copy beside it the path still leads there:
      -- nothing can fail any more.
      obtain ⟨folder, name, hleads, -⟩ := read_eq_ok_iff.mp hread
      obtain ⟨folder', name', hbackup, rfl⟩ := write_eq_ok_iff.mp hkept
      obtain ⟨rfl, rfl⟩ := hleads.append slash_not_mem_backup hbackup
      have hwrite := (hleads.withFile hbackup.slash_not_mem old).write text.toUTF8
      dsimp only
      rw [Run.exec_pure]
      dsimp only
      rw [Run.exec_bind, Run.exec_write, hwrite]
      rfl

theorem exec_deliver_none (text : String) (w : World) :
    (deliver none text).exec w = (.ok none, { w with shown := w.shown ++ text }) :=
  rfl

/-- The steps of patching a file come to what patching it is in one. -/
theorem exec_patch (schema : Schema) (settings : Settings) (input : String)
    (output : Option String) (w : World) :
    (patch schema settings input output).exec w =
      match w.directory.patch schema settings input output with
      | ⟨.ok outcome, events⟩ =>
        (.ok ⟨outcome.regions, outcome.backup⟩,
          { w with
            directory := outcome.directory
            shown := w.shown ++ outcome.shown
            events := w.events ++ events })
      | ⟨.error failure, events⟩ =>
        (.error failure, { w with events := w.events ++ events }) := by
  rw [patch, Run.exec_bind, Run.exec_directory]
  dsimp only
  rw [Run.exec_bind, Run.exec_ofExcept, Directory.patch]
  cases w.directory.readText input with
  | error fault => simp [Except.mapError]
  | ok old =>
    dsimp only [Except.mapError]
    rw [Run.exec_bind, Run.exec_ofLogged]
    dsimp only
    cases htext : (Patch.text schema settings input old).value with
    | error fault => simp [Logged.andThen]
    | ok patched =>
      dsimp only [Logged.andThen]
      rw [Run.exec_bind]
      cases output with
      | none => simp [exec_deliver_none, Patch.deliver]
      | some path =>
        rw [exec_deliver_some, Patch.deliver]
        cases save w.directory path patched.text <;> simp [Except.map]

/-- Patching that succeeds leaves what it comes to in one. -/
theorem exists_outcome_of_exec_patch {input : String} {output : Option String} {w w' : World}
    {patching : Patching}
    (h : (patch schema settings input output).exec w = (.ok patching, w')) :
    ∃ outcome, (w.directory.patch schema settings input output).value = .ok outcome ∧
      patching = ⟨outcome.regions, outcome.backup⟩ ∧ w'.directory = outcome.directory ∧
      w'.shown = w.shown ++ outcome.shown := by
  rw [exec_patch] at h
  rcases hpatch : w.directory.patch schema settings input output with
    ⟨failure | outcome, events⟩
  · rw [hpatch] at h
    cases h
  · rw [hpatch] at h
    obtain ⟨hpatching, rfl⟩ := Prod.mk.inj h
    exact ⟨outcome, rfl, (Except.ok.inj hpatching).symm, rfl, rfl⟩

/-- Patching that fails leaves nothing but its events. -/
theorem eq_of_exec_patch_error {input : String} {output : Option String} {w w' : World}
    {failure : Failure}
    (h : (patch schema settings input output).exec w = (.error failure, w')) :
    (w.directory.patch schema settings input output).value = .error failure ∧
      w' = { w with
        events := w.events ++ (w.directory.patch schema settings input output).events } := by
  rw [exec_patch] at h
  rcases hpatch : w.directory.patch schema settings input output with
    ⟨failure' | outcome, events⟩
  · rw [hpatch] at h
    obtain ⟨hfailure, rfl⟩ := Prod.mk.inj h
    exact ⟨congrArg Except.error (Except.error.inj hfailure), rfl⟩
  · rw [hpatch] at h
    cases h

/-- A path to write to is overwritten, and nothing is shown. -/
theorem overwrites_of_exec_patch {input : String} {w w' : World} {patching : Patching}
    (h : (patch schema settings input (some path)).exec w = (.ok patching, w')) :
    ∃ old patched, w.directory.readText input = .ok old ∧
      (Patch.text schema settings input old).value = .ok patched ∧
      patching.regions = patched.regions ∧
      w.directory.Overwrites w'.directory path patched.text patching.backup ∧
      w'.shown = w.shown := by
  obtain ⟨outcome, hvalue, rfl, hdirectory, hshown⟩ := exists_outcome_of_exec_patch h
  obtain ⟨old, patched, hold, htext, hdeliver⟩ := patch_eq_ok_iff.mp hvalue
  obtain ⟨backup, d', hsave, rfl⟩ := deliver_some_eq_ok_iff.mp hdeliver
  refine ⟨old, patched, hold, htext, rfl, ?_, hshown.trans String.append_empty⟩
  rw [hdirectory]
  exact overwrites_of_save hsave

/-- Without a path to write to, the text is shown. -/
theorem shown_of_exec_patch {input : String} {w w' : World} {patching : Patching}
    (h : (patch schema settings input none).exec w = (.ok patching, w')) :
    ∃ old patched, w.directory.readText input = .ok old ∧
      (Patch.text schema settings input old).value = .ok patched ∧
      patching.regions = patched.regions ∧ patching.backup = none ∧
      w'.directory = w.directory ∧ w'.shown = w.shown ++ patched.text := by
  obtain ⟨outcome, hvalue, rfl, hdirectory, hshown⟩ := exists_outcome_of_exec_patch h
  obtain ⟨old, patched, hold, htext, hdeliver⟩ := patch_eq_ok_iff.mp hvalue
  obtain rfl := Except.ok.inj hdeliver
  exact ⟨old, patched, hold, htext, rfl, rfl, hdirectory, hshown⟩

/-- If patching fails, it fails before anything is written or shown. -/
theorem clean_patch (schema : Schema) (settings : Settings) (input : String)
    (output : Option String) : Run.Clean (patch schema settings input output) := by
  intro w failure h
  rcases hexec : (patch schema settings input output).exec w with ⟨result, w'⟩
  rw [hexec] at h
  obtain rfl : result = .error failure := h
  obtain ⟨-, rfl⟩ := eq_of_exec_patch_error hexec
  exact ⟨rfl, rfl⟩

theorem events_of_exec_patch {input : String} {output : Option String} {w w' : World}
    {fault : Region.Fault} (h : (patch schema settings input output).exec w =
      (.error (.markersFaulty input fault), w')) : w'.events = w.events := by
  obtain ⟨hvalue, rfl⟩ := eq_of_exec_patch_error h
  simp [events_patch_of_markersFaulty hvalue]

/-- **What patching a file changes.** If it fails, no file has changed, nothing has been shown, and
if the markers are at fault nothing has been generated either. Otherwise the text of the input with
its regions generated anew is what the output path leads to, the file that was there before is kept
in its copy, and all other files are as they were; without an output path the text is shown and no
file changes. -/
theorem exec_patch_cases (schema : Schema) (settings : Settings) (input : String)
    (output : Option String) (w : World) :
    match (patch schema settings input output).exec w with
    | (.error failure, w') =>
      w'.directory = w.directory ∧ w'.shown = w.shown ∧
        ∀ fault, failure = .markersFaulty input fault → w'.events = w.events
    | (.ok patching, w') =>
      ∃ old patched, w.directory.readText input = .ok old ∧
        (Patch.text schema settings input old).value = .ok patched ∧
        patching.regions = patched.regions ∧
        match output with
        | some path =>
          w.directory.Overwrites w'.directory path patched.text patching.backup ∧
            w'.shown = w.shown
        | none =>
          patching.backup = none ∧ w'.directory = w.directory ∧
            w'.shown = w.shown ++ patched.text := by
  rcases h : (patch schema settings input output).exec w with ⟨failure | patching, w'⟩
  · obtain ⟨hdirectory, hshown⟩ := clean_patch schema settings input output w failure
      (congrArg Prod.fst h)
    rw [h] at hdirectory hshown
    exact ⟨hdirectory, hshown, fun fault hfault => events_of_exec_patch (hfault ▸ h)⟩
  · cases output with
    | none => exact shown_of_exec_patch h
    | some path => exact overwrites_of_exec_patch h

end Program

end Enumerant
