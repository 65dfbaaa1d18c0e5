import Enumerant.Patch
import Enumerant.Proofs.Directory
import Enumerant.Proofs.Patch.Replacement
import Enumerant.Proofs.Text.Lines

/-!
# Patching twice

A patched text has the markers that it had, and what is generated for a region depends on its
opening marker only. So a second patch finds the regions that the first one found, wherever they are
now, and puts in what is there already, unless a generated line is a marker itself.
-/

namespace Enumerant

namespace Region

variable {lines after texts : List String} {rs : List Region} {ss : List Span}
  {render : Region → String}

/-- Whether a text for a region depends on no more than its opening marker. -/
def DependsOnMarker (render : Region → String) : Prop :=
  ∀ r r', r.tag = r'.tag → r.storage = r'.storage → r.style = r'.style → render r = render r'

/-! ### Regions filled -/

theorem map_regionsFrom (hrender : DependsOnMarker render) (d : Nat) (ss : List Span) :
    (regionsFrom d ss).map render = ss.map fun s => render (s.region 0) := by
  induction ss generalizing d with
  | nil => rfl
  | cons s ss ih =>
    rw [regionsFrom, List.map_cons, List.map_cons, ih]
    exact congrArg (· :: _) (hrender _ _ rfl rfl rfl)

/-- The lines of a file whose regions are filled. -/
theorem replace_spans (hrender : DependsOnMarker render) (ss : List Span) (after : List String) :
    replace ((regionsFrom 0 ss).map fun r => (r, render r)) (ss.flatMap Span.lines ++ after) =
      filledLines ss (ss.map fun s => render (s.region 0)) ++ after := by
  have hlength : (ss.map fun s => render (s.region 0)).length = ss.length := by
    simp
  rw [replace, List.map_prod_left_eq_zip, map_regionsFrom hrender, replaceFrom_regionsFrom hlength,
    Option.getD_some]

/-- Spans that are filled are spans again, and filling them once more changes nothing. -/
theorem exists_spans_filled (hrender : DependsOnMarker render)
    (hplain : ∀ s ∈ ss, ∀ line ∈ Text.lines (render (s.region 0)), IsPlain line) :
    ∃ ss' : List Span, ss'.length = ss.length ∧
      ss'.flatMap Span.lines = filledLines ss (ss.map fun s => render (s.region 0)) ∧
      filledLines ss' (ss'.map fun s => render (s.region 0)) =
        filledLines ss (ss.map fun s => render (s.region 0)) := by
  induction ss with
  | nil => exact ⟨[], rfl, rfl, rfl⟩
  | cons s ss ih =>
    obtain ⟨hs, hss⟩ := List.forall_mem_cons.mp hplain
    obtain ⟨ss', hlength, hlines, hfilled⟩ := ih hss
    -- The markers stay and the text for them with them, so the new span is filled alike.
    let s' : Span :=
      { s with inner := Text.lines (render (s.region 0)), plain_inner := hs }
    have hs' : render (s'.region 0) = render (s.region 0) := hrender _ _ rfl rfl rfl
    refine ⟨s' :: ss', by simp [hlength], ?_, ?_⟩
    · rw [List.flatMap_cons, hlines, List.map_cons, filledLines_cons]
      rfl
    · rw [List.map_cons, filledLines_cons, hfilled, hs', List.map_cons, filledLines_cons]
      rfl

/-- Filling the regions of a file twice is filling them once if no marker is put in. -/
theorem replace_replace (hrender : DependsOnMarker render) (h : scan lines = .ok rs)
    (hplain : ∀ r ∈ rs, ∀ line ∈ Text.lines (render r), IsPlain line) :
    let filled := replace (rs.map fun r => (r, render r)) lines
    ∃ rs', scan filled = .ok rs' ∧ rs'.length = rs.length ∧
      replace (rs'.map fun r => (r, render r)) filled = filled := by
  obtain ⟨ss, after, rfl, hafter, rfl⟩ := scan_eq_ok_iff.mp h
  have hspans : ∀ s ∈ ss, ∀ line ∈ Text.lines (render (s.region 0)), IsPlain line := by
    intro s hs
    have hmem : render (s.region 0) ∈ (regionsFrom 0 ss).map render := by
      rw [map_regionsFrom hrender]
      exact List.mem_map_of_mem hs
    obtain ⟨r, hr, heq⟩ := List.mem_map.mp hmem
    exact heq ▸ hplain r hr
  obtain ⟨ss', hlength, hlines, hfilled⟩ := exists_spans_filled hrender hspans
  refine ⟨regionsFrom 0 ss', ?_, by simp [hlength], ?_⟩
  · rw [replace_spans hrender, ← hlines]
    exact scan_eq_ok_iff.mpr ⟨ss', after, rfl, hafter, rfl⟩
  · rw [replace_spans hrender, ← hlines, replace_spans hrender, hfilled, hlines]

/-! ### Line breaks -/

/-- What stands in front of a closing marker has to end with its line breaks. -/
theorem isLined_filled_append_iff (s : Span) (inner lines : List String) :
    Text.IsLined (s.filled inner ++ lines) ↔
      (∀ line ∈ s.before ++ s.opening :: inner, Text.IsLine line) ∧
        Text.IsLined (s.closing :: lines) := by
  have hsplit : s.filled inner ++ lines =
      (s.before ++ s.opening :: inner) ++ (s.closing :: lines) := by
    simp [Span.filled]
  rw [hsplit, Text.isLined_append_iff (List.cons_ne_nil _ _)]

theorem filled_append_ne_nil (s : Span) (inner lines : List String) :
    s.filled inner ++ lines ≠ [] := by
  simp [Span.filled]

/-- The last line of a file is its own last line or a closing marker, so it stays the last one. -/
theorem isLined_filledLines (hlength : texts.length = ss.length)
    (htexts : ∀ text ∈ texts, ∀ line ∈ Text.lines text, Text.IsLine line)
    (h : Text.IsLined (ss.flatMap Span.lines ++ after)) :
    Text.IsLined (filledLines ss texts ++ after) := by
  induction ss generalizing texts with
  | nil =>
    obtain rfl : texts = [] := List.eq_nil_of_length_eq_zero hlength
    exact h
  | cons s ss ih =>
    obtain ⟨text, texts, rfl⟩ := List.exists_cons_of_length_eq_add_one hlength
    obtain ⟨htext, htexts⟩ := List.forall_mem_cons.mp htexts
    rw [List.flatMap_cons, List.append_assoc, Span.lines, isLined_filled_append_iff] at h
    rw [filledLines_cons, List.append_assoc, isLined_filled_append_iff]
    obtain ⟨hfront, hback⟩ := h
    refine ⟨?_, ?_⟩
    · intro line hline
      rcases List.mem_append.mp hline with hline | hline
      · exact hfront line (List.mem_append_left _ hline)
      · rcases List.mem_cons.mp hline with rfl | hline
        · exact hfront _ (by simp)
        · exact htext line hline
    · -- Only the closing marker of the last span may be the last line of the file.
      cases ss with
      | nil =>
        obtain rfl : texts = [] := List.eq_nil_of_length_eq_zero (Nat.succ.inj hlength)
        exact hback
      | cons s' ss =>
        have hlength' : texts.length = (s' :: ss).length := Nat.succ.inj hlength
        have hlines : (s' :: ss).flatMap Span.lines ++ after ≠ [] := by
          rw [List.flatMap_cons, List.append_assoc]
          exact filled_append_ne_nil s' _ _
        have hfilled : filledLines (s' :: ss) texts ++ after ≠ [] := by
          obtain ⟨text', texts, rfl⟩ := List.exists_cons_of_length_eq_add_one hlength'
          rw [filledLines_cons, List.append_assoc]
          exact filled_append_ne_nil s' _ _
        obtain ⟨hclosing, hrest⟩ := (Text.isLined_cons_iff hlines).mp hback
        exact (Text.isLined_cons_iff hfilled).mpr ⟨hclosing, ih hlength' htexts hrest⟩

/-- Filled regions leave the lines of a text. -/
theorem isLined_replace (hrender : DependsOnMarker render) (h : scan lines = .ok rs)
    (htexts : ∀ r ∈ rs, ∀ line ∈ Text.lines (render r), Text.IsLine line)
    (hlined : Text.IsLined lines) :
    Text.IsLined (replace (rs.map fun r => (r, render r)) lines) := by
  obtain ⟨ss, after, rfl, -, rfl⟩ := scan_eq_ok_iff.mp h
  rw [replace_spans hrender, ← map_regionsFrom hrender 0]
  refine isLined_filledLines (by simp) (fun text htext => ?_) hlined
  obtain ⟨r, hr, rfl⟩ := List.mem_map.mp htext
  exact htexts r hr

end Region

namespace Patch

open Rendering

variable {schema : Schema} {settings : Settings} {line path old : String} {patched : Patched}

/-! ### Generated blocks -/

theorem textOf_eq (ls : List String) : textOf ls = "" ∨ ∃ s, textOf ls = s ++ "\n" := by
  induction ls with
  | nil => exact .inl rfl
  | cons l ls ih =>
    have hcons : textOf (l :: ls) = l ++ "\n" ++ textOf ls := rfl
    rcases ih with hls | ⟨s, hls⟩
    · exact .inr ⟨l, by rw [hcons, hls, String.append_empty]⟩
    · exact .inr ⟨l ++ "\n" ++ s, by rw [hcons, hls, ← String.append_assoc]⟩

/-- A block ends with a line break unless it is empty. -/
theorem value_block_eq (schema : Schema) (settings : Settings) (r : Region) :
    (block schema settings r).value = "" ∨ ∃ s, (block schema settings r).value = s ++ "\n" := by
  unfold block Schema.answer?
  cases schema.lookup settings r.request.group with
  | none => exact .inr ⟨"// Not found: " ++ r.tag, rfl⟩
  | some g => exact textOf_eq _

theorem isLine_of_mem_block {r : Region}
    (h : line ∈ Text.lines (block schema settings r).value) : Text.IsLine line := by
  rcases value_block_eq schema settings r with heq | ⟨s, heq⟩
  · rw [heq] at h
    exact absurd h List.not_mem_nil
  · exact Text.isLine_of_mem_lines (heq ▸ h)

/-- A block depends on no more than the opening marker of its region. -/
theorem dependsOnMarker_block (schema : Schema) (settings : Settings) :
    Region.DependsOnMarker fun r => (block schema settings r).value := by
  intro r r' htag hstorage hstyle
  simp only [block, Region.request, htag, hstorage, hstyle]

/-! ### Texts -/

/-- What patching a text gives. -/
theorem text_eq_ok_iff : (text schema settings path old).value = .ok patched ↔
    ∃ rs, Region.scan (Text.lines old) = .ok rs ∧
      patched = ⟨String.join (Region.replace (rs.map fun r => (r, (block schema settings r).value))
        (Text.lines old)), rs.length⟩ := by
  unfold text
  cases h : Region.scan (Text.lines old) with
  | error fault => simp [h]
  | ok rs => simp [h, List.map_prod_left_eq_zip, Function.comp_def, eq_comm]

/-- A patched text is patched already. -/
theorem text_text (h : (text schema settings path old).value = .ok patched)
    (hplain : ∀ rs, Region.scan (Text.lines old) = .ok rs → ∀ r ∈ rs,
      ∀ line ∈ Text.lines (block schema settings r).value, IsPlain line) :
    (text schema settings path patched.text).value = .ok patched := by
  obtain ⟨rs, hscan, rfl⟩ := text_eq_ok_iff.mp h
  have hrender := dependsOnMarker_block schema settings
  obtain ⟨rs', hscan', hlength, hreplace⟩ :=
    Region.replace_replace hrender hscan (hplain rs hscan)
  have hlined := Region.isLined_replace hrender hscan (fun r _ line => isLine_of_mem_block)
    (Text.isLined_lines old)
  rw [Text.IsLined] at hlined
  refine text_eq_ok_iff.mpr ⟨rs', ?_, ?_⟩
  · rw [hlined, hscan']
  · rw [hlined, hreplace, hlength]

/-! ### Files -/

theorem slash_not_mem_backup : '/' ∉ ".backup".toList := by
  decide

/-- What is kept before a file is overwritten stands beside it. -/
theorem save_eq_ok_iff {d d' : Directory} {contents : ByteArray} {backup : Option String}
    {text : String} (hread : d.read path = .ok contents) :
    save d path text = .ok (backup, d') ↔ ∃ folder name, d.Leads path folder name ∧
      d.Leads (backupPath path) folder (name ++ ".backup") ∧ backup = some (backupPath path) ∧
      d' = (d.withFile folder (name ++ ".backup") contents).withFile folder name text.toUTF8 := by
  obtain ⟨folder, name, hleads, -⟩ := Directory.read_eq_ok_iff.mp hread
  rw [save, hread]
  dsimp only
  constructor
  · intro h
    cases hkept : d.write (backupPath path) contents with
    | error fault =>
      rw [hkept] at h
      cases h
    | ok kept =>
      obtain ⟨folder', name', hbackup, rfl⟩ := Directory.write_eq_ok_iff.mp hkept
      -- The backup lies in the same folder, and making it does not change where the path leads.
      obtain ⟨rfl, rfl⟩ := hleads.append slash_not_mem_backup hbackup
      rw [hkept] at h
      dsimp only at h
      rw [(hleads.withFile hbackup.slash_not_mem _).write] at h
      obtain ⟨hpath, hd⟩ := Prod.mk.inj (Except.ok.inj h)
      exact ⟨folder', name, hleads, hbackup, hpath.symm, hd.symm⟩
  · rintro ⟨folder', name', hleads', hbackup, rfl, rfl⟩
    rw [hbackup.write]
    dsimp only
    rw [(hleads'.withFile hbackup.slash_not_mem _).write]

/-- Where nothing can be read, nothing is kept. -/
theorem save_eq_ok_iff_of_error {d d' : Directory} {fault : Directory.Fault}
    {backup : Option String} {text : String} (hread : d.read path = .error fault) :
    save d path text = .ok (backup, d') ↔ ∃ folder name, d.Leads path folder name ∧
      backup = none ∧ d' = d.withFile folder name text.toUTF8 := by
  rw [save, hread]
  dsimp only
  constructor
  · intro h
    cases hwrite : d.write path text.toUTF8 with
    | error fault =>
      rw [hwrite] at h
      cases h
    | ok written =>
      obtain ⟨folder, name, hleads, rfl⟩ := Directory.write_eq_ok_iff.mp hwrite
      rw [hwrite] at h
      obtain ⟨hbackup, hd⟩ := Prod.mk.inj (Except.ok.inj h)
      exact ⟨folder, name, hleads, hbackup.symm, hd.symm⟩
  · rintro ⟨folder, name, hleads, rfl, rfl⟩
    rw [hleads.write]

theorem deliver_some_eq_ok_iff {d : Directory} {outcome : Outcome} :
    deliver d (some path) patched = .ok outcome ↔
      ∃ backup d', save d path patched.text = .ok (backup, d') ∧
        outcome = { regions := patched.regions, backup, directory := d' } := by
  rw [deliver]
  cases save d path patched.text with
  | error failure => simp [Except.map]
  | ok saved =>
    obtain ⟨backup, d'⟩ := saved
    simp [Except.map, eq_comm]

end Patch

/-- The patched directory. -/
theorem Directory.patch_eq_ok_iff {d : Directory} {schema : Schema} {settings : Settings}
    {input : String} {output : Option String} {outcome : Patch.Outcome} :
    (d.patch schema settings input output).value = .ok outcome ↔
      ∃ old patched, d.readText input = .ok old ∧
        (Patch.text schema settings input old).value = .ok patched ∧
        Patch.deliver d output patched = .ok outcome := by
  rw [patch]
  cases hread : d.readText input with
  | error fault => simp
  | ok old =>
    cases htext : (Patch.text schema settings input old).value with
    | error fault => simp [Logged.andThen, htext, Except.mapError]
    | ok patched => simp [Logged.andThen, htext, Except.mapError]

/-- **Patching is idempotent.** A file that was patched in place can be patched again: as many
regions are found, and the file stays as it is, unless a line that was generated for it is a marker.
-/
theorem Directory.patch_patch {d : Directory} {schema : Schema} {settings : Settings}
    {path : String} {outcome : Patch.Outcome}
    (h : (d.patch schema settings path (some path)).value = .ok outcome)
    (hplain : ∀ old rs, d.readText path = .ok old → Region.scan (Text.lines old) = .ok rs →
      ∀ r ∈ rs, ∀ line ∈ Text.lines (Patch.block schema settings r).value, IsPlain line) :
    ∃ outcome' contents,
      (outcome.directory.patch schema settings path (some path)).value = .ok outcome' ∧
      outcome'.regions = outcome.regions ∧
      outcome.directory.read path = .ok contents ∧ outcome'.directory.read path = .ok contents := by
  obtain ⟨old, patched, hold, htext, hdeliver⟩ := patch_eq_ok_iff.mp h
  obtain ⟨backup, d', hsave, rfl⟩ := Patch.deliver_some_eq_ok_iff.mp hdeliver
  obtain ⟨folder, name, hleads, hbackup, -, rfl⟩ :=
    (Patch.save_eq_ok_iff (readText_eq_ok_iff.mp hold)).mp hsave
  -- Both files that were written are where they can be written again.
  have hname := hleads.slash_not_mem
  have hname' := hbackup.slash_not_mem
  have hkept := hleads.withFile hname' old.toUTF8
  have hread := hkept.read_withFile patched.text.toUTF8
  have hleads' := hkept.withFile hname patched.text.toUTF8
  have hbackup' := (hbackup.withFile hname' old.toUTF8).withFile hname patched.text.toUTF8
  have hsave' : Patch.save _ path patched.text = .ok _ :=
    (Patch.save_eq_ok_iff hread).mpr ⟨folder, name, hleads', hbackup', rfl, rfl⟩
  refine ⟨_, _, patch_eq_ok_iff.mpr ⟨_, patched, readText_eq_ok_iff.mpr hread,
    Patch.text_text htext (fun rs => hplain old rs hold),
    Patch.deliver_some_eq_ok_iff.mpr ⟨_, _, hsave', rfl⟩⟩, rfl, hread, ?_⟩
  exact (hleads'.withFile hname' _).read_withFile _

/-- A file with a region for each of two groups, and text around them. -/
def tideFile : String :=
  "x\n// Codegen <Tide>\nold\n// Codegen </Tide>\ny\n// Codegen <Surge>\n// Codegen </Surge>\nz\n"

/-- The file with both regions generated. -/
def tideFilePatched : String :=
  "x\n// Codegen <Tide>\nenum class Tide : uint32_t \x7b\n\teLow = 0,\n\x7d;\n" ++
    "// Codegen </Tide>\ny\n// Codegen <Surge>\n" ++
      "enum class Surge : uint32_t \x7b\n\teCalm = 5, // none\n\x7d;\n// Codegen </Surge>\nz\n"

/-- The groups of `tideFile`. -/
def tideSchema : Schema :=
  .of [⟨"Tide", .plain, 32, [⟨"TIDE_LOW", .implicit, none⟩]⟩,
    ⟨"Surge", .plain, 32, [⟨"SURGE_CALM", .decimal 5, some "none"⟩]⟩]

/-- Both regions of `tideFile` get longer when it is patched, so that the second one moves, and the
file stays as it is then. -/
theorem Directory.patch_patch_tideFile :
    let d : Directory := { files := [("a.h", tideFile.toUTF8)] }
    ∃ outcome outcome',
      (d.patch tideSchema {} "a.h" (some "a.h")).value = .ok outcome ∧
      (outcome.directory.patch tideSchema {} "a.h" (some "a.h")).value = .ok outcome' ∧
      outcome'.regions = outcome.regions ∧
      outcome.directory.read "a.h" = .ok tideFilePatched.toUTF8 ∧
      outcome'.directory.read "a.h" = .ok tideFilePatched.toUTF8 := by
  intro d
  have hold : d.readText "a.h" = .ok tideFile := by
    decide +kernel
  have hscan : Region.scan (Text.lines tideFile) =
      .ok [{ tag := "Tide", offset := 1, length := 2 },
        { tag := "Surge", offset := 2, length := 1 }] := by
    decide +kernel
  have hplain : ∀ old rs, d.readText "a.h" = .ok old → Region.scan (Text.lines old) = .ok rs →
      ∀ r ∈ rs, ∀ line ∈ Text.lines (Patch.block tideSchema {} r).value, IsPlain line := by
    intro old rs hold' hscan'
    obtain rfl := Except.ok.inj (hold.symm.trans hold')
    obtain rfl := Except.ok.inj (hscan.symm.trans hscan')
    decide +kernel
  have hpatched : ((d.patch tideSchema {} "a.h" (some "a.h")).value.toOption.map fun outcome =>
      (outcome.directory.readText "a.h").toOption) = some (some tideFilePatched) := by
    decide +kernel
  cases h : (d.patch tideSchema {} "a.h" (some "a.h")).value with
  | error failure =>
    rw [h] at hpatched
    cases hpatched
  | ok outcome =>
    obtain ⟨outcome', contents, hagain, hregions, hread, hread'⟩ := patch_patch h hplain
    have htext : outcome.directory.readText "a.h" = .ok tideFilePatched := by
      rw [h] at hpatched
      cases hnew : outcome.directory.readText "a.h" with
      | error fault => simp [Except.toOption, hnew] at hpatched
      | ok new =>
        simp only [Except.toOption, hnew, Option.map_some, Option.some_inj] at hpatched
        rw [hpatched]
    obtain rfl := Except.ok.inj (hread.symm.trans (readText_eq_ok_iff.mp htext))
    exact ⟨outcome, outcome', rfl, hagain, hregions, hread, hread'⟩

end Enumerant
