import Enumerant.Proofs.Naming.Characters
import Enumerant.Proofs.Program
import Enumerant.Proofs.Request
import Enumerant.Proofs.Text.Decoding
import Enumerant.Proofs.Text.Rows

/-!
# Batches line by line

A batch is answered line by line: `blocks` are the blocks that the requests on the lines of a text
get, each for itself, and `tally` counts the lines by what they come to. `run_linewise` says that a
batch is made of these, that both are those of its parts put together, and that nothing is shown
for bytes that are no text. A line's number goes only into what is told about a fault, so the
inductions over the lines (`filterMap_block?_entriesFrom`, `foldl_count_entriesFrom`) are for all
numbers at once.
-/

namespace Enumerant.Batch

open Text Request

variable {schema : Schema} {settings : Settings} {bytes : ByteArray} {s t text : String}

/-! ### What lines come to -/

/-- The lines of a batch without their breaks. -/
def requestLines (text : String) : List (List Char) :=
  (lines text).map fun line => withoutBreak line.toList

/-- What is answered to a request: the code of its group, or a note that there is none. -/
def reply (schema : Schema) (settings : Settings) (r : Request) : String :=
  match schema.lookup settings r.group with
  | some g => Rendering.textOf ((g.resolve settings).value.lines r settings)
  | none => "// Not found: " ++ r.group ++ "\n"

/-- The blocks of a batch, one for each line that holds a request. -/
def blocks (schema : Schema) (settings : Settings) (text : String) : List String :=
  ((requestLines text).filterMap request?).map (reply schema settings)

/-- How many lines hold a request for a group that is there, or for one that is not, and how many
are at fault. -/
def tally (schema : Schema) (settings : Settings) (lines : List (List Char)) : Summary where
  generated := (lines.filterMap request?).countP fun r => (schema.lookup settings r.group).isSome
  notFound := (lines.filterMap request?).countP fun r => (schema.lookup settings r.group).isNone
  skipped := lines.countP fun line => (cause? line).isSome

instance : Add Summary where
  add s s' := ⟨s.generated + s'.generated, s.notFound + s'.notFound, s.skipped + s'.skipped⟩

/-- Summaries are added count by count. -/
theorem add_eq (s s' : Summary) :
    s + s' = ⟨s.generated + s'.generated, s.notFound + s'.notFound, s.skipped + s'.skipped⟩ :=
  rfl

theorem requestLines_append (s t : String) :
    requestLines (s ++ "\n" ++ t) = requestLines (s ++ "\n") ++ requestLines t := by
  rw [requestLines, lines_append, List.map_append, ← requestLines, ← requestLines]

/-- Two files answer one after the other. -/
theorem blocks_append (schema : Schema) (settings : Settings) (s t : String) :
    blocks schema settings (s ++ "\n" ++ t) =
      blocks schema settings (s ++ "\n") ++ blocks schema settings t := by
  rw [blocks, requestLines_append, List.filterMap_append, List.map_append, ← blocks, ← blocks]

/-- What two lists of lines come to is counted together. -/
theorem tally_append (schema : Schema) (settings : Settings) (as bs : List (List Char)) :
    tally schema settings (as ++ bs) = tally schema settings as + tally schema settings bs := by
  simp [tally, add_eq, List.filterMap_append]

theorem tally_cons (line : List Char) (ls : List (List Char)) :
    tally schema settings (line :: ls) = tally schema settings [line] + tally schema settings ls :=
  tally_append schema settings [line] ls

/-- Each line that is not blank is counted once. -/
theorem tally_total (schema : Schema) (settings : Settings) (ls : List (List Char)) :
    (tally schema settings ls).generated + (tally schema settings ls).notFound +
        (tally schema settings ls).skipped =
      ls.countP fun line => content line ≠ [] := by
  induction ls with
  | nil => rfl
  | cons line ls ih =>
    have hline : (tally schema settings [line]).generated +
        (tally schema settings [line]).notFound + (tally schema settings [line]).skipped =
          if content line ≠ [] then 1 else 0 := by
      rcases request?_cases line with ⟨h, hr, hc⟩ | ⟨h, ⟨r, hr⟩, hc⟩ | ⟨h, hr, cause, hc⟩
      · simp [tally, h, hr, hc]
      · cases hg : schema.lookup settings r.group <;> simp [tally, h, hr, hc, hg]
      · simp [tally, h, hr, hc]
    rw [tally_cons, List.countP_cons, ← ih]
    simp only [add_eq, decide_eq_true_eq, ← hline]
    omega

/-! ### Entries -/

/-- The number of a line does not matter to its entry, save for the wording of a fault. -/
theorem value_entry (line : List Char) (number : ℕ) :
    (entry schema settings (String.ofList line) number).value =
      match cause? line, request? line with
      | some cause, _ => .skipped ⟨number, cause⟩
      | none, none => .nothing
      | none, some r =>
        if (schema.lookup settings r.group).isSome then .generated (reply schema settings r)
        else .missing r.group := by
  rw [entry, String.toList_ofList, parse_eq]
  rcases cause? line with - | cause
  · rcases request? line with - | r
    · rfl
    · dsimp only
      rw [Schema.answer?, reply]
      cases schema.lookup settings r.group <;> rfl
  · rfl

/-- A faulty line is skipped with its number. -/
theorem entry_of_cause?_eq_some {line : List Char} {cause : Cause} (h : cause? line = some cause)
    (number : ℕ) : entry schema settings (String.ofList line) number =
      { value := .skipped ⟨number, cause⟩, events := [.requestSkipped ⟨number, cause⟩] } := by
  rw [entry, String.toList_ofList, parse_eq, h]

/-- A line answers with a block if it is a request. -/
theorem block?_entry (line : List Char) (number : ℕ) :
    (entry schema settings (String.ofList line) number).value.block? =
      (request? line).map (reply schema settings) := by
  rw [value_entry]
  rcases request?_cases line with ⟨-, hr, hc⟩ | ⟨-, ⟨r, hr⟩, hc⟩ | ⟨-, hr, cause, hc⟩
  · rw [hr, hc]
    rfl
  · rw [hr, hc]
    dsimp only
    cases h : schema.lookup settings r.group
    · rw [Option.map_some, reply, h]
      rfl
    · rfl
  · rw [hr, hc]
    rfl

/-- The blocks of lines and their counts, from whatever number on. -/
theorem filterMap_block?_entriesFrom (ls : List (List Char)) (number : ℕ) :
    ((entriesFrom schema settings number (ls.map String.ofList)).map Logged.value).filterMap
        Entry.block? =
      (ls.filterMap request?).map (reply schema settings) := by
  induction ls generalizing number with
  | nil => rfl
  | cons line ls ih =>
    rw [List.map_cons, entriesFrom, List.map_cons, List.filterMap_cons, block?_entry, ih,
      List.filterMap_cons]
    cases request? line <;> rfl

/-- A line is counted as what it is. -/
theorem count_entry (line : List Char) (number : ℕ) (s : Summary) :
    s.count (entry schema settings (String.ofList line) number).value =
      s + tally schema settings [line] := by
  rw [value_entry, tally, add_eq]
  rcases request?_cases line with ⟨-, hr, hc⟩ | ⟨-, ⟨r, hr⟩, hc⟩ | ⟨-, hr, cause, hc⟩
  · simp [hr, hc, Summary.count]
  · cases h : schema.lookup settings r.group <;> simp [hr, hc, h, Summary.count]
  · simp [hr, hc, Summary.count]

/-- All lines are counted, whatever their numbers. -/
theorem foldl_count_entriesFrom (ls : List (List Char)) (number : ℕ) (s : Summary) :
    ((entriesFrom schema settings number (ls.map String.ofList)).map Logged.value).foldl
        Summary.count s =
      s + tally schema settings ls := by
  induction ls generalizing number s with
  | nil => rfl
  | cons line ls ih =>
    rw [List.map_cons, entriesFrom, List.map_cons, List.foldl_cons, count_entry, ih,
      tally_cons line ls]
    simp only [add_eq, Nat.add_assoc]

/-! ### Batches -/

theorem readable_map_some (ls : List String) : readable (ls.map some) = ls := by
  induction ls with
  | nil => rfl
  | cons l ls ih => rw [List.map_cons, readable, ih]

/-- The batch of a text has the blocks of its lines and counts them. -/
theorem value_run_toUTF8 (schema : Schema) (settings : Settings) (text : String) :
    (run schema settings text.toUTF8).value =
      some ⟨header settings (blocks schema settings text),
        tally schema settings (requestLines text)⟩ := by
  have hall : ((lines text).map some).all Option.isSome := by simp
  have hlines : (lines text).map (fun line => String.ofList (withoutBreak line.toList)) =
      (requestLines text).map String.ofList := by
    rw [requestLines, List.map_map]
    rfl
  rw [run, decodedLines_toUTF8, readable_map_some, hlines]
  dsimp only
  rw [if_pos hall, output, filterMap_block?_entriesFrom, ← blocks, summary,
    foldl_count_entriesFrom]
  simp [add_eq]

/-- Bytes that are no text have no answer. -/
theorem value_run_of_forall_ne (schema : Schema) (settings : Settings)
    (h : ∀ text : String, bytes ≠ text.toUTF8) :
    (run schema settings bytes).value = none := by
  rw [run]
  dsimp only
  refine if_neg fun hall => ?_
  obtain ⟨text, htext⟩ := exists_eq_toUTF8 hall
  exact h text htext

/-- The string type is needed if one of the blocks uses it. -/
theorem any_needsStringHeader (bs : List String) :
    bs.any needsStringHeader =
      decide (∃ block ∈ bs, "std::string".toList <:+: block.toList) := by
  rw [Bool.eq_iff_iff, List.any_eq_true, decide_eq_true_iff]
  simp only [needsStringHeader, contains_iff]

/-! ### Single lines -/

theorem requestLines_of_lines_eq {line : String} (h : lines line = [line]) :
    requestLines line = [withoutBreak line.toList] := by
  rw [requestLines, h, List.map_singleton]

/-- A line alone has the block of its request, if it holds one. -/
theorem blocks_of_lines_eq {line : String} (h : lines line = [line]) :
    blocks schema settings line =
      ((request? line.toList).map (reply schema settings)).toList := by
  rw [blocks, requestLines_of_lines_eq h, List.filterMap_cons,
    request?_eq_of_content_eq (content_withoutBreak line.toList)]
  cases request? line.toList <;> rfl

/-- A line alone counts as what it asks for. -/
theorem tally_of_lines_eq {line : String} (h : lines line = [line]) :
    tally schema settings (requestLines line) = tally schema settings [line.toList] := by
  have hcontent := content_withoutBreak line.toList
  rw [requestLines_of_lines_eq h, tally, tally]
  simp only [List.filterMap_cons, List.countP_singleton, request?_eq_of_content_eq hcontent,
    cause?_eq_of_content_eq hcontent]

/-- A file of one line has its block, if any. -/
theorem blocks_append_newline {line : String} (h : '\n' ∉ line.toList) :
    blocks schema settings (line ++ "\n") =
      ((request? line.toList).map (reply schema settings)).toList := by
  have hblank : ∀ c ∈ "\n".toList, isBlank c := List.forall_mem_singleton.mpr (by decide)
  have hcontent : content (line ++ "\n").toList = content line.toList := by
    rw [String.toList_append, content_append_of_forall hblank]
  rw [blocks_of_lines_eq (lines_append_newline h), request?_eq_of_content_eq hcontent]

/-- The batch of a line alone. -/
theorem run_of_lines_eq {line : String} (h : lines line = [line]) :
    run schema settings line.toUTF8 =
      let e := entry schema settings (String.ofList (withoutBreak line.toList)) 1
      { value := some (output settings [e.value]), events := e.events } := by
  rw [run, decodedLines_toUTF8, readable_map_some, h]
  simp [entriesFrom]

/-! ### Texts -/

/-- What stands in front of all blocks. -/
theorem prologue_eq (settings : Settings) (stringHeader : Bool) :
    prologue settings stringHeader =
      "#pragma once\n\n"
        ++ "// This file was auto-generated by enumgen. Do not edit.\n\n"
        ++ "#include <stdint.h>\n"
        ++ (if stringHeader then "#include <string>\n" else "")
        ++ (if settings.namespaceName = "" then ""
            else "\nnamespace " ++ settings.namespaceName ++ " \x7b\n") :=
  rfl

/-- What stands behind all blocks. -/
theorem epilogue_eq (settings : Settings) :
    epilogue settings = bannerBlock settings
      ++ (if settings.namespaceName = "" then ""
          else "\x7d // end namespace " ++ settings.namespaceName ++ "\n") :=
  rfl

/-- **Batches are answered line by line.** The batch of a text shows the blocks of its requests, in
order and between banners, and counts its lines by what they come to. The blocks and the counts of
texts add up where one follows the other, so no line has to do with the block of another. For bytes
that are no text nothing is shown. -/
theorem run_linewise (schema : Schema) (settings : Settings) :
    (∀ text : String, ∃ out : Output, (run schema settings text.toUTF8).value = some out ∧
      out.text =
        "#pragma once\n\n"
          ++ "// This file was auto-generated by enumgen. Do not edit.\n\n"
          ++ "#include <stdint.h>\n"
          ++ (if ∃ block ∈ blocks schema settings text, "std::string".toList <:+: block.toList
              then "#include <string>\n" else "")
          ++ (if settings.namespaceName = "" then ""
              else "\nnamespace " ++ settings.namespaceName ++ " \x7b\n")
          ++ String.join ((blocks schema settings text).map (bannerBlock settings ++ ·))
          ++ bannerBlock settings
          ++ (if settings.namespaceName = "" then ""
              else "\x7d // end namespace " ++ settings.namespaceName ++ "\n") ∧
      out.summary = tally schema settings (requestLines text) ∧
      out.summary.generated + out.summary.notFound + out.summary.skipped =
        (requestLines text).countP fun line => content line ≠ []) ∧
    (∀ s t : String, blocks schema settings (s ++ "\n" ++ t) =
        blocks schema settings (s ++ "\n") ++ blocks schema settings t ∧
      ∃ out out₁ out₂, (run schema settings (s ++ "\n" ++ t).toUTF8).value = some out ∧
        (run schema settings (s ++ "\n").toUTF8).value = some out₁ ∧
        (run schema settings t.toUTF8).value = some out₂ ∧
        out.summary = out₁.summary + out₂.summary) ∧
    (∀ s line t : String, '\n' ∉ line.toList →
      blocks schema settings (s ++ "\n" ++ (line ++ "\n" ++ t)) =
        blocks schema settings (s ++ "\n")
          ++ ((request? line.toList).map (reply schema settings)).toList
          ++ blocks schema settings t) ∧
    ∀ bytes : ByteArray, (∀ text : String, bytes ≠ text.toUTF8) →
      (run schema settings bytes).value = none ∧
      ∀ (o : Options) (input : ByteArray) (w : World), o.mode = .batch →
        Program.requests o w.directory input = .ok bytes →
        ∃ events, (Program.perform o input settings schema).exec w =
          (.error (.requestsUnread .notText), { w with events }) := by
  refine ⟨fun text => ⟨_, value_run_toUTF8 schema settings text, ?_, rfl,
    tally_total schema settings _⟩, fun s t => ⟨blocks_append schema settings s t, _, _, _,
    value_run_toUTF8 schema settings _, value_run_toUTF8 schema settings _,
    value_run_toUTF8 schema settings _, ?_⟩, ?_, ?_⟩
  · dsimp only
    rw [header, any_needsStringHeader, prologue_eq, epilogue_eq]
    simp only [decide_eq_true_eq, String.append_assoc]
  · dsimp only
    rw [requestLines_append, tally_append]
  · intro s line t hline
    rw [blocks_append, blocks_append, blocks_append_newline hline, List.append_assoc]
  · intro bytes hbytes
    have hnone := value_run_of_forall_ne schema settings hbytes
    refine ⟨hnone, fun o input w hmode hrequests => ?_⟩
    rw [Program.exec_perform_batch hmode hrequests]
    dsimp only
    rw [hnone]
    exact ⟨_, rfl⟩

end Enumerant.Batch
