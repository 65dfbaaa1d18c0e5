import Enumerant.Proofs.Batch
import Enumerant.Session

/-!
# Sessions and batches

A session goes over the same lines as a batch, up to the first that ends it (`heard`), and shows one
answer for each line that is not blank. `run_transcript` gives the whole text of a session and says
that each answer is what the batch of that line alone would hold, save for the templates of
structures, and for faults, which a session shows and a batch only tells.
-/

namespace Enumerant.Session

open Text Request Batch

variable {schema : Schema} {settings : Settings} {line text : String}

/-! ### What is heard -/

/-- Whether a line ends the session. -/
def endsSession (line : String) : Bool :=
  isQuit (content line.toList)

/-- The lines of a text in front of the first that ends the session. -/
def heard (text : String) : List String :=
  (lines text).takeWhile (!endsSession ·)

/-- What a session shows from one prompt to the next, where `body` gives the answers. -/
def turn (settings : Settings) (body : String → String) (line : String) : String :=
  prompt ++ if content line.toList = [] then "" else framed settings (body line)

/-- The answer to a line. -/
def replyTo (schema : Schema) (settings : Settings) (line : String) : String :=
  (answer schema settings (content line.toList)).value

/-! ### Courses -/

theorem respond_eq (line : String) :
    respond schema settings line =
      if endsSession line then .quit
      else if content line.toList = [] then .nothing
      else .answered (answer schema settings (content line.toList)) :=
  rfl

/-- The course over lines that can be decoded, turn by turn. -/
theorem course_map_some (schema : Schema) (settings : Settings) (ls : List String) :
    let c := course schema settings (ls.map some)
    let heard := ls.takeWhile (!endsSession ·)
    c.text = String.join (heard.map (turn settings (replyTo schema settings))) ++ prompt
        ++ (if c.ending = .endOfInput then "\n" else "") ∧
      c.answered = heard.countP (fun line => content line.toList ≠ []) ∧
      c.ending = if ls.any endsSession then .quit else .endOfInput := by
  induction ls with
  | nil => exact ⟨rfl, rfl, rfl⟩
  | cons line ls ih =>
    obtain ⟨htext, hanswered, hending⟩ := ih
    dsimp only
    rw [List.map_cons, course, respond_eq, List.any_cons]
    by_cases hquit : endsSession line
    · simp [hquit]
    rw [if_neg hquit, List.takeWhile_cons_of_pos (by simp [hquit]), List.map_cons,
      String.join_cons, List.countP_cons]
    -- A line without content shows a prompt and counts nothing.
    by_cases hblank : content line.toList = []
    · rw [if_pos hblank]
      refine ⟨?_, ?_, ?_⟩
      · dsimp only [Course.showing]
        rw [htext, turn, if_pos hblank, String.append_empty]
        simp only [String.append_assoc]
        rfl
      · simpa [Course.showing, hblank] using hanswered
      · simpa [Course.showing, hquit] using hending
    · rw [if_neg hblank]
      refine ⟨?_, ?_, ?_⟩
      · dsimp only [Course.showing, Course.answering]
        rw [htext, turn, if_neg hblank, replyTo]
        simp only [String.append_assoc]
        rfl
      · simpa [Course.showing, Course.answering, hblank] using hanswered
      · simpa [Course.showing, Course.answering, hquit] using hending

theorem run_toUTF8 (schema : Schema) (settings : Settings) (text : String) :
    let c := course schema settings ((lines text).map some)
    let r := run schema settings text.toUTF8
    r.text = greeting ++ c.text ∧ r.answered = c.answered ∧ r.ending = c.ending := by
  rw [run, decodedLines_toUTF8]
  dsimp only [Course.showing]
  split <;> exact ⟨rfl, rfl, rfl⟩

/-! ### Answers -/

theorem replyTo_of_struct?_eq_some {d : Struct}
    (h : schema.struct? (String.ofList (name (content line.toList))) = some d) :
    replyTo schema settings line = d.template settings := by
  rw [replyTo, answer, h]

theorem replyTo_of_struct?_eq_none
    (h : schema.struct? (String.ofList (name (content line.toList))) = none) :
    replyTo schema settings line = match cause? line.toList, request? line.toList with
      | some cause, _ => "// " ++ Fault.message ⟨1, cause⟩ ++ "\n"
      | none, none => ""
      | none, some r => reply schema settings r := by
  rw [replyTo, answer, h]
  dsimp only
  rw [parse_content, parse_eq]
  rcases cause? line.toList with - | cause
  · rcases request? line.toList with - | r
    · rfl
    · dsimp only
      rw [Schema.answer?, reply]
      cases schema.lookup settings r.group <;> rfl
  · rfl

/-- Whether `body` is what a session answers to a line: the template of the structure that the line
names, or the only block in the batch of the line, or the fault that this batch tells of. -/
def IsBody (schema : Schema) (settings : Settings) (line body : String) : Prop :=
  match schema.struct? (String.ofList (name (content line.toList))) with
  | some d => body = d.template settings
  | none =>
    (∃ summary, (summary = { generated := 1 } ∨ summary = { notFound := 1 }) ∧
      (Batch.run schema settings line.toUTF8).value = some ⟨header settings [body], summary⟩) ∨
    ∃ cause : Cause,
      Batch.run schema settings line.toUTF8 =
        { value := some ⟨header settings [], { skipped := 1 }⟩
          events := [.requestSkipped ⟨1, cause⟩] } ∧
      body = "// line 1: " ++ cause.message ++ "\n" ∧ '\n' ∉ cause.message.toList

theorem comment_eq (cause : Cause) :
    "// " ++ Fault.message ⟨1, cause⟩ ++ "\n" = "// line 1: " ++ cause.message ++ "\n" := by
  have hfront : "// " ++ ("line " ++ toString 1 ++ ": ") = "// line 1: " := by decide
  rw [Fault.message, ← String.append_assoc, hfront]

theorem isBody_replyTo (hmem : line ∈ lines text) (hne : content line.toList ≠ []) :
    IsBody schema settings line (replyTo schema settings line) := by
  rw [IsBody]
  split
  case h_1 d h => exact replyTo_of_struct?_eq_some h
  case h_2 h =>
    have hline := lines_of_mem_lines hmem
    rw [replyTo_of_struct?_eq_none h]
    -- A line with content is either a request, answered as in a batch of one, or a fault.
    rcases request?_cases line.toList with ⟨hnil, -⟩ | ⟨-, ⟨r, hr⟩, hc⟩ | ⟨-, hr, cause, hc⟩
    · exact absurd hnil hne
    · left
      have hvalue := value_run_toUTF8 schema settings line
      rw [blocks_of_lines_eq hline, tally_of_lines_eq hline, hr] at hvalue
      rw [hr, hc]
      refine ⟨_, ?_, hvalue⟩
      cases hg : schema.lookup settings r.group <;> simp [tally, hr, hc, hg]
    · right
      have hbreak := cause?_eq_of_content_eq (content_withoutBreak line.toList)
      refine ⟨cause, ?_, ?_, ?_⟩
      · rw [run_of_lines_eq hline, entry_of_cause?_eq_some (hbreak.trans hc)]
        rfl
      · rw [hc]
        exact comment_eq cause
      · exact newline_not_mem_message
          (newline_not_mem_content (newline_not_mem_dropLast hmem)) hc

/-! ### Sessions -/

/-- **Sessions answer as batches do.** A session over a text greets, asks for each line that it
hears, answers those that are not blank between banners, and asks once more, for the line that ends
it or at the end of the text, where it breaks the line. It counts its answers, and each of them is
what the batch of the line alone holds, unless the line names a structure or is at fault. -/
theorem run_transcript (schema : Schema) (settings : Settings) (text : String) :
    let course := run schema settings text.toUTF8
    ∃ body : String → String,
      course.text =
        "// Enter a struct or enum name to begin, Ctrl+D to end interactive session:\n"
          ++ String.join ((heard text).map fun line =>
            "('q' to quit): "
              ++ if content line.toList = [] then ""
                else bannerBlock settings ++ body line ++ bannerBlock settings)
          ++ "('q' to quit): "
          ++ (if course.ending = .endOfInput then "\n" else "") ∧
      course.ending = (if (lines text).any endsSession then .quit else .endOfInput) ∧
      course.answered = (heard text).countP (fun line => content line.toList ≠ []) ∧
      ∀ line ∈ heard text, content line.toList ≠ [] →
        IsBody schema settings line (body line) := by
  obtain ⟨htext, hanswered, hending⟩ := run_toUTF8 schema settings text
  obtain ⟨htext', hanswered', hending'⟩ :=
    course_map_some schema settings (lines text)
  refine ⟨replyTo schema settings, ?_, hending.trans hending', hanswered.trans hanswered',
    fun line hline hne => ?_⟩
  · rw [htext, htext', hending, ← String.append_assoc, ← String.append_assoc]
    rfl
  · exact isBody_replyTo ((List.takeWhile_sublist _).mem hline) hne

end Enumerant.Session
