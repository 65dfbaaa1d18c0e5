import Enumerant.Console
import Enumerant.Options.Reading
import Enumerant.Patch
import Enumerant.Run
import Enumerant.Session
import Enumerant.Source

/-!
# The program

A run reads the settings and the source, does what its mode asks for, and reports. It is a function
of the options, of the directory and of what is typed; only what it reports touches the world.
-/

namespace Enumerant

/-- What a run has done: what it has shown, what it has to note at its end, the directory that it
leaves, and why it could not go on, if so. -/
structure Effect where
  shown : String := ""
  notes : List String := []
  directory : Directory
  failure : Option Failure := none

namespace Program

/-! ### Modes -/

/-- The names that are described by a group for a value given as text. -/
def describe (settings : Settings) (e : Enumeration) (value : String) : Except Failure String :=
  match Literal.parse? (Text.trim value.toList) with
  | none => .error (.valueFaulty value)
  | some v =>
    match e.kind with
    | .plain => .ok (e.describe settings v)
    | .bitmask =>
      if v < 0 then .error (.valueNegative value) else .ok (e.describeFlags settings v.toNat)

/-- The resolved group of a name. -/
def enumeration (schema : Schema) (settings : Settings) (group : String) :
    Logged (Except Failure Enumeration) :=
  match schema.lookup settings group with
  | none => { value := .error (.groupMissing group) }
  | some g =>
    let resolved := g.resolve settings
    { value := .ok resolved.value, events := resolved.events }

/-- The bytes that hold the requests of a batch. -/
def requests (o : Options) (d : Directory) (input : ByteArray) : Except Failure ByteArray :=
  match o.requests with
  | none => .ok input
  | some path =>
    match d.read path with
    | .ok bytes => .ok bytes
    | .error .isDirectory => .error (.requestsUnread .isDirectory)
    | .error fault => .error (.requestsUnopened path fault)

/-- The batch over bytes, if they are text. -/
def answers (schema : Schema) (settings : Settings) (bytes : ByteArray) :
    Logged (Except Failure Batch.Output) :=
  let batch := Batch.run schema settings bytes
  { events := batch.events
    value :=
      match batch.value with
      | none => .error (.requestsUnread .notText)
      | some output => .ok output }

/-- What is noted after a batch. -/
def batchNote (s : Batch.Summary) : String :=
  "Generated " ++ toString s.generated ++ " enums (" ++ toString s.notFound ++ " not found, "
    ++ toString s.skipped ++ " requests skipped)"

/-- A session over bytes. -/
def converse (schema : Schema) (settings : Settings) (bytes : ByteArray) : Run Unit := do
  let course := Session.run schema settings bytes
  Run.tell course.events
  Run.display course.text
  match course.ending with
  | .undecodable => throw (.inputUnread .notText)
  | _ => return

/-! ### Patching -/

/-- Copies the file at a path to where it is kept, if there is one. -/
def keep (path : String) : Run (Option String) := do
  match (← Run.directory).read path with
  | .error _ => return none
  | .ok old =>
    Run.write (Patch.backupPath path) old (.backupUnwritten path)
    return some (Patch.backupPath path)

/-- Shows a text, or writes it to a path after the file that is there was kept. -/
def deliver (output : Option String) (text : String) : Run (Option String) := do
  match output with
  | none =>
    Run.display text
    return none
  | some path =>
    let backup ← keep path
    Run.write path text.toUTF8 (.patchUnwritten path)
    return backup

/-- What a run that patched a file has to tell: how many regions were generated, and where the
overwritten file is kept. -/
structure Patching where
  regions : Nat
  backup : Option String
  deriving DecidableEq, Repr

/-- Patches the file at a path, step by step. -/
def patch (schema : Schema) (settings : Settings) (input : String) (output : Option String) :
    Run Patching := do
  let old ← Run.ofExcept (((← Run.directory).readText input).mapError (.patchUnread input))
  let read := Patch.text schema settings input old
  let patched ← Run.ofLogged { read with value := read.value.mapError (.markersFaulty input) }
  let backup ← deliver output patched.text
  return { regions := patched.regions, backup }

/-- What is noted after a file was patched. -/
def patchNotes (output : Option String) (patching : Patching) : List String :=
  match output with
  | none => []
  | some path =>
    (if patching.backup.isSome then ["Created backup for `" ++ path ++ "`."] else [])
      ++ ["Generated " ++ toString patching.regions ++ " enums in output file: `" ++ path ++ "`"]

/-! ### Runs -/

/-- Where the source is: where the options say, or else where the settings say. -/
def sourcePath (o : Options) (settings : Settings) : Except Failure String :=
  match o.source <|> settings.source with
  | some path => .ok path
  | none => .error .sourceMissing

/-- The settings and the schema of a run. -/
def prepare (o : Options) (d : Directory) : Logged (Except Failure (Settings × Schema)) :=
  (d.loadSettings o.settings).andThen fun settings =>
    Logged.andThen { value := sourcePath o settings } fun path =>
      (d.loadSchema path).andThen fun schema => { value := .ok (settings, schema) }

/-- What a run does once it has its settings and its source. -/
def perform (o : Options) (input : ByteArray) (settings : Settings) (schema : Schema) :
    Run Unit := do
  match o.mode with
  | .listGroups => schema.groups.forM fun g => Run.display (g.name ++ "\n")
  | .dump group =>
    let e ← Run.ofLogged (enumeration schema settings group)
    Run.display (e.json ++ "\n")
  | .describe group value =>
    let e ← Run.ofLogged (enumeration schema settings group)
    let names ← Run.ofExcept (describe settings e value)
    Run.display (names ++ "\n")
  | .patch path =>
    let patching ← patch schema settings path o.output
    Run.note (patchNotes o.output patching)
  | .interactive => converse schema settings input
  | .batch =>
    let bytes ← Run.ofExcept (requests o (← Run.directory) input)
    let output ← Run.ofLogged (answers schema settings bytes)
    Run.display output.text
    Run.note [batchNote output.summary]

/-- All that a run does. -/
def steps (o : Options) (input : ByteArray) : Run Unit := do
  let (settings, schema) ← Run.ofLogged (prepare o (← Run.directory))
  perform o input settings schema

/-- Why a run could not go on, if so. -/
def failure? : Except Failure Unit → Option Failure
  | .ok _ => none
  | .error failure => some failure

/-- A whole run. -/
def run (o : Options) (d : Directory) (input : ByteArray) : Logged Effect :=
  let (result, world) := (steps o input).exec { directory := d }
  { events := world.events
    value :=
      { shown := world.shown
        notes := world.notes
        directory := world.directory
        failure := failure? result } }

/-! ### Reports -/

/-- What is reported to the outside: the status and the texts of both channels. -/
structure Report where
  status : Nat
  shown : String
  told : String
  deriving DecidableEq, Repr

/-- The status of a run that could not go on. -/
def failureStatus : Nat :=
  2

/-- The wording of a failure on the console. -/
def failureLine (failure : Failure) : String :=
  "error: " ++ failure.message

/-- The report of a run, as far as a filter shows its events. -/
def report (filter : Console.Filter) (run : Logged Effect) : Report where
  status := if run.value.failure.isSome then failureStatus else 0
  shown := run.value.shown
  told := Rendering.textOf
    (filter.lines run.events ++ run.value.notes ++ (run.value.failure.map failureLine).toList)

/-- The filter that is in force: debugging wins over what is set outside. -/
def filter (o : Options) (setting : String) : Console.Filter :=
  if o.debug then .debugging else .parse setting

end Program

end Enumerant
