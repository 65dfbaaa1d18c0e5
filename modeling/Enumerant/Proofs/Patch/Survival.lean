import Enumerant.Proofs.Patch.Effect

/-!
# What becomes of the input

Patching a file to another one writes to the output, and to the copy of what was there. Whether the
input is among these is a matter of the files that the paths lead to, not of how they are spelled. A
file that a path leads to can still be read after another one is written, whatever the folders they
lie in (`Leads.read_withFile_of_ne`), so the input is as it was unless it lies where the copy goes;
and then it has been overwritten by what the output held (`Directory.read_input_of_patch`).
-/

namespace Enumerant

namespace Directory

variable {d : Directory} {path path' name name' : String} {folder folder' : List String}

/-! ### Reading beside what is written -/

/-- A file is read from where its path leads to. -/
theorem Leads.read_eq (h : d.Leads path folder name) : d.read path =
    match d.files.lookup (pathOf (folder ++ [name])) with
    | some contents => .ok contents
    | none => .error .notFound := by
  rw [read, h.target_eq]
  dsimp only
  rw [if_neg (Nat.not_lt.mpr h.size_le), h.not_endsInSlash]
  rfl

/-- What is written to one file changes nothing in another. -/
theorem Leads.read_withFile_of_ne (h : d.Leads path folder name)
    (h' : d.Leads path' folder' name') (hne : d.fileAt? path ≠ d.fileAt? path')
    (contents : ByteArray) : (d.withFile folder' name' contents).read path = d.read path := by
  rw [h.fileAt?_eq, h'.fileAt?_eq, ne_eq, Option.some_inj] at hne
  rw [(h.withFile_of_leads h' contents).read_eq, lookup_withFile_of_ne (Ne.symm hne), h.read_eq]

/-- What is written to a file is read from it by any path that leads there. -/
theorem Leads.read_withFile_of_eq (h : d.Leads path folder name)
    (h' : d.Leads path' folder' name') (heq : d.fileAt? path = d.fileAt? path')
    (contents : ByteArray) : (d.withFile folder' name' contents).read path = .ok contents := by
  rw [h.fileAt?_eq, h'.fileAt?_eq, Option.some_inj] at heq
  rw [(h.withFile_of_leads h' contents).read_eq, heq, Directory.withFile, lookup_put_self]

/-- A path leads to the same file as before when another path has been written to. -/
theorem Leads.fileAt?_withFile (h : d.Leads path folder name) (h' : d.Leads path' folder' name')
    (contents : ByteArray) : (d.withFile folder' name' contents).fileAt? path = d.fileAt? path := by
  rw [(h.withFile_of_leads h' contents).fileAt?_eq, h.fileAt?_eq]

/-- A name without a slash leads to a file of that name. -/
theorem Leads.fileAt?_eq_self (h : d.Leads path folder name) (hslash : '/' ∉ path.toList) :
    d.fileAt? path = some path := by
  obtain ⟨-, hne, -, hfollow, hlast, -⟩ := target_eq_file_iff.mp h.target_eq
  have hfields : Text.fields (· == '/') path.toList = [path.toList] := by
    rw [Text.fields_eq_splitOnP]
    exact List.splitOnP_eq_singleton fun c hc => by
      rw [beq_eq_false_iff_ne]
      rintro rfl
      exact hslash hc
  have hnames : names path = [path] := by simp [names, hfields, hne]
  have hstart : start path = [] := by
    rw [start, if_neg]
    exact fun hhead => hslash (List.mem_of_head? hhead)
  rw [hnames, List.getLast?_singleton, Option.some_inj] at hlast
  rw [hnames, hstart, List.dropLast_singleton, follow, Except.ok.injEq] at hfollow
  rw [h.fileAt?_eq, ← hlast, ← hfollow, List.nil_append, pathOf, String.intercalate_singleton]

end Directory

namespace Patch

open Directory

variable {d d' : Directory} {path input text : String} {backup : Option String}

/-- What a text is saved to is where a file can be. -/
theorem leads_of_save (h : save d path text = .ok (backup, d')) :
    ∃ folder name, d.Leads path folder name := by
  cases hread : d.read path with
  | error fault =>
    obtain ⟨folder, name, hleads, -⟩ := (save_eq_ok_iff_of_error hread).mp h
    exact ⟨folder, name, hleads⟩
  | ok old =>
    obtain ⟨folder, name, hleads, -⟩ := read_eq_ok_iff.mp hread
    exact ⟨folder, name, hleads⟩

/-- What saving a text does to another file. -/
theorem read_of_save {folder : List String} {name : String} (hinput : d.Leads input folder name)
    (hne : d.fileAt? input ≠ d.fileAt? path) (h : save d path text = .ok (backup, d')) :
    d'.read input =
      if (d.read path).toBool ∧ d.fileAt? (backupPath path) = d.fileAt? input then d.read path
      else d.read input := by
  cases hread : d.read path with
  | error fault =>
    obtain ⟨folder', name', hleads, -, rfl⟩ := (save_eq_ok_iff_of_error hread).mp h
    exact hinput.read_withFile_of_ne hleads hne _
  | ok old =>
    obtain ⟨folder', name', hleads, hbackup, -, rfl⟩ := (save_eq_ok_iff hread).mp h
    -- The text goes to the output behind the copy, so of the two it is the copy that counts.
    have hkept : ((d.withFile folder' (name' ++ ".backup") old).withFile folder' name'
        text.toUTF8).read input = (d.withFile folder' (name' ++ ".backup") old).read input := by
      refine (hinput.withFile_of_leads hbackup old).read_withFile_of_ne
        (hleads.withFile_of_leads hbackup old) ?_ _
      rwa [hinput.fileAt?_withFile hbackup, hleads.fileAt?_withFile hbackup]
    rw [hkept]
    by_cases hcopy : d.fileAt? (backupPath path) = d.fileAt? input
    · rw [if_pos ⟨rfl, hcopy⟩, hinput.read_withFile_of_eq hbackup hcopy.symm]
    · rw [if_neg fun h => hcopy h.2, hinput.read_withFile_of_ne hbackup (Ne.symm hcopy)]

end Patch

/-- **What becomes of the input.** A patch that is written to another file than the input leaves the
input as it was, unless the copy of what was in the output goes to the input: then the input holds
what the output held. Of files that are given by their names in the directory, it is the one with
the name of the copy. -/
theorem Directory.read_input_of_patch {d : Directory} {schema : Schema} {settings : Settings}
    {input output : String} {outcome : Patch.Outcome}
    (h : (d.patch schema settings input (some output)).value = .ok outcome) :
    (d.fileAt? input ≠ d.fileAt? output →
        outcome.directory.read input =
          if (d.read output).toBool ∧ d.fileAt? (Patch.backupPath output) = d.fileAt? input then
            d.read output
          else d.read input) ∧
      ('/' ∉ input.toList → '/' ∉ output.toList → input ≠ output →
        outcome.directory.read input =
          if (d.read output).toBool ∧ input = Patch.backupPath output then d.read output
          else d.read input) := by
  obtain ⟨old, patched, hold, -, hdeliver⟩ := patch_eq_ok_iff.mp h
  obtain ⟨backup, d', hsave, rfl⟩ := Patch.deliver_some_eq_ok_iff.mp hdeliver
  obtain ⟨folder, name, hinput, -⟩ := read_eq_ok_iff.mp (readText_eq_ok_iff.mp hold)
  refine ⟨fun hne => Patch.read_of_save hinput hne hsave, fun hslash hslash' hne => ?_⟩
  obtain ⟨folder', name', houtput⟩ := Patch.leads_of_save hsave
  have hne' : d.fileAt? input ≠ d.fileAt? output := by
    rwa [hinput.fileAt?_eq_self hslash, houtput.fileAt?_eq_self hslash', ne_eq, Option.some_inj]
  rw [Patch.read_of_save hinput hne' hsave]
  -- A backup is made only of an output that was there.
  cases hread : d.read output with
  | error fault => rfl
  | ok contents =>
    obtain ⟨_, _, -, hbackup, -⟩ := (Patch.save_eq_ok_iff hread).mp hsave
    have hslash'' : '/' ∉ (Patch.backupPath output).toList := by
      rw [Patch.backupPath, String.toList_append]
      exact fun hmem => (List.mem_append.mp hmem).elim hslash' Patch.slash_not_mem_backup
    simp only [hbackup.fileAt?_eq_self hslash'', hinput.fileAt?_eq_self hslash, Option.some_inj,
      @eq_comm _ input]

/-- A file that is patched into another one that is there stays as it is. -/
theorem Directory.read_input_of_patch_beside :
    let d : Directory := { files := [("a.h", "new\n".toUTF8), ("b.h", "old\n".toUTF8)] }
    ∃ outcome, (d.patch {} {} "a.h" (some "b.h")).value = .ok outcome ∧
      outcome.directory.read "a.h" = .ok "new\n".toUTF8 := by
  intro d
  have hok : (d.patch {} {} "a.h" (some "b.h")).value.toBool = true := by
    decide +kernel
  have hread : d.read "a.h" = .ok "new\n".toUTF8 := by
    decide +kernel
  cases h : (d.patch {} {} "a.h" (some "b.h")).value with
  | error failure =>
    rw [h] at hok
    cases hok
  | ok outcome =>
    have hinput := (read_input_of_patch h).2 (by decide) (by decide) (by decide)
    rw [if_neg (by decide +kernel), hread] at hinput
    exact ⟨outcome, rfl, hinput⟩

/-- The copy of an older file is patched back into it: it is overwritten before that. -/
theorem Directory.read_input_of_patch_copy :
    let d : Directory := { files := [("a.h", "old\n".toUTF8), ("a.h.backup", "new\n".toUTF8)] }
    d.readText "a.h.backup" = .ok "new\n" ∧
      (d.patch {} {} "a.h.backup" (some "a.h")).value.toOption.map
        (fun outcome => outcome.directory.readText "a.h.backup") = some (.ok "old\n") := by
  decide +kernel

end Enumerant
