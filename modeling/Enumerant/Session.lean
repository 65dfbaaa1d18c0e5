import Enumerant.Batch

/-!
# Interactive sessions

A session answers names as they are typed, between prompts. A structure's name gets its initializer
template, and any other line is answered as in a batch, save that faults are shown in place.
-/

namespace Enumerant.Session

/-- What opens a session. -/
def greeting : String :=
  "// Enter a struct or enum name to begin, Ctrl+D to end interactive session:\n"

/-- What asks for the next line. -/
def prompt : String :=
  "('q' to quit): "

/-- Whether a line, brought to its content, ends the session. -/
def isQuit (content : List Char) : Bool :=
  ["q", "quit", "exit"].contains (String.ofList content)

/-- The name that a line starts with. -/
def name (content : List Char) : List Char :=
  Text.trim (content.takeWhile (· != ','))

/-- The answer to a line, brought to its content. -/
def answer (schema : Schema) (settings : Settings) (content : List Char) : Logged String :=
  match schema.struct? (String.ofList (name content)) with
  | some d => { value := d.template settings }
  | none =>
    match Request.parse content 1 with
    | .ok none => { value := "" }
    | .error fault => { value := "// " ++ fault.message ++ "\n" }
    | .ok (some request) =>
      (schema.answer? settings request).getD { value := missingNote request.group }

/-- What a line comes to. -/
inductive Response where
  | quit
  /-- The line asks for nothing. -/
  | nothing
  | answered (block : Logged String)

/-- What a line as it was typed comes to. -/
def respond (schema : Schema) (settings : Settings) (line : String) : Response :=
  let content := Request.content line.toList
  if isQuit content then .quit
  else if content = [] then .nothing
  else .answered (answer schema settings content)

/-- An answer between two banners. -/
def framed (settings : Settings) (block : String) : String :=
  Batch.bannerBlock settings ++ block ++ Batch.bannerBlock settings

/-! ### Whole sessions -/

/-- How a session ends. -/
inductive Ending where
  | quit
  | endOfInput
  /-- A line is no UTF-8. -/
  | undecodable
  deriving DecidableEq, Repr

/-- The course of a session: what it shows, how many lines it answers, and how it ends. -/
structure Course where
  text : String
  answered : Nat := 0
  ending : Ending
  events : List Event := []
  deriving DecidableEq, Repr

/-- A course with something shown in front. -/
def Course.showing (text : String) (c : Course) : Course :=
  { c with text := text ++ c.text }

/-- A course with an answer in front. -/
def Course.answering (settings : Settings) (block : Logged String) (c : Course) : Course :=
  { c with
    text := framed settings block.value ++ c.text
    answered := c.answered + 1
    events := block.events ++ c.events }

/-- The course over lines. -/
def course (schema : Schema) (settings : Settings) : List (Option String) → Course
  | [] => { text := prompt ++ "\n", ending := .endOfInput }
  | none :: _ => { text := prompt, ending := .undecodable }
  | some line :: lines =>
    match respond schema settings line with
    | .quit => { text := prompt, ending := .quit }
    | .nothing => (course schema settings lines).showing prompt
    | .answered block =>
      ((course schema settings lines).answering settings block).showing prompt

/-- The session over a sequence of bytes. -/
def run (schema : Schema) (settings : Settings) (bytes : ByteArray) : Course :=
  let c := (course schema settings (Text.decodedLines bytes)).showing greeting
  match c.ending with
  | .undecodable => c
  | _ => { c with events := c.events ++ [.sessionEnded c.answered] }

end Enumerant.Session
