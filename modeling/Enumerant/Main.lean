import Enumerant.Program

/-!
# Command line

The outer layer: it collects the files that a run may look at, has the run computed, and carries out
what it came to. A session is carried on line by line, so that its prompts come in time.
-/

namespace Enumerant

namespace Main

/-! ### Words for the user -/

/-- What can be given on the command line. -/
def usage : String :=
  "Usage: enumgen [OPTIONS] [REQUESTS]\n\n"
    ++ "Generate C++ enum classes from the enums of a C header or an XML registry\n\n"
    ++ "  [REQUESTS]                    request file, one `Group[, string_table][, c]` per line\n"
    ++ "  -s, --source <FILE>           enum source: an XML API registry (.xml) or a C header\n"
    ++ "  -c, --config <FILE>           configuration file (default: ./.enumgen.yml if present)\n"
    ++ "  -p, --patch <FILE>            regenerate the `// Codegen <Group>` regions of FILE\n"
    ++ "  -o, --output <FILE>           where patched output goes (default: stdout)\n"
    ++ "  -i, --interactive             prompt for struct or enum names\n"
    ++ "      --list-groups             list the groups found in the source\n"
    ++ "      --dump-json <GROUP>       print the resolved members of GROUP as JSON\n"
    ++ "      --describe <GROUP> <VALUE>  print the names that VALUE maps to in GROUP\n"
    ++ "      --debug                   enable debug output\n"
    ++ "  -h, --help                    print help\n"
    ++ "  -V, --version                 print version\n"

/-- The name and the version. -/
def version : String :=
  "enumgen 0.1.0\n"

/-- An option as it is written on the command line. -/
def parameterLabel : Options.Parameter → String
  | .requests => "[REQUESTS]"
  | .source => "--source <FILE>"
  | .settings => "--config <FILE>"
  | .patch => "--patch <FILE>"
  | .output => "--output <FILE>"
  | .interactive => "--interactive"
  | .listGroups => "--list-groups"
  | .dump => "--dump-json <GROUP>"
  | .describe => "--describe <GROUP> <VALUE>"
  | .debug => "--debug"
  | .help => "--help"
  | .version => "--version"

/-- The wording for arguments that give no options. -/
def stopMessage : Options.Stop → String
  | .unknown argument => "unexpected argument '" ++ argument ++ "' found"
  | .missingValue p | .emptyPath p =>
    "a value is required for '" ++ parameterLabel p ++ "' but none was supplied"
  | .wrongCount p count =>
    toString p.arity ++ " values required for '" ++ parameterLabel p ++ "' but "
      ++ toString count ++ " were provided"
  | .needlessValue p => "no value is expected for '" ++ parameterLabel p ++ "'"
  | .repeated p => "the argument '" ++ parameterLabel p ++ "' cannot be used multiple times"
  | .outputAlone => "the argument '" ++ parameterLabel .output ++ "' requires '"
      ++ parameterLabel .patch ++ "'"
  | .help => usage
  | .version => version

/-! ### The directory -/

/-- The directory with the file or folder that is at a path, if there is one. -/
def look (d : Directory) (path : String) : IO Directory := do
  let name := Directory.straight path
  if (d.files.lookup name).isSome then
    return d
  match ← (IO.FS.readBinFile path).toBaseIO with
  | .ok contents => return { d with files := d.files ++ [(name, contents)] }
  | .error (.inappropriateType ..) => return { d with folders := name :: d.folders }
  | .error _ => return d

/-- The directory with what is on the way of a path. -/
def lookAlong (d : Directory) (path : String) : IO Directory :=
  let names := Directory.start path ++ Directory.names path
  ((List.range names.length).map fun n => Directory.pathOf (names.take (n + 1))).foldlM look d

/-- The paths that options name, and the one at which a file is kept. -/
def pathsOf (o : Options) : List String :=
  defaultSettingsPath ::
    (o.settings.toList ++ o.source.toList ++ o.requests.toList ++ o.patch.toList
      ++ o.output.toList ++ o.output.toList.map Patch.backupPath)

/-- The directory as far as a run with options may look at it. -/
def collect (o : Options) : IO Directory := do
  let d ← (pathsOf o).foldlM lookAlong {}
  match (d.loadSettings o.settings).value with
  | .ok settings => settings.source.toList.foldlM lookAlong d
  | .error _ => return d

/-- Writes the files in which a directory differs from what it was. -/
def save (before after : Directory) : IO Unit :=
  after.files.forM fun (path, contents) =>
    if (before.files.lookup path).any (·.toList = contents.toList) then pure ()
    else IO.FS.writeBinFile path contents

/-! ### What is typed -/

/-- The bytes up to the next line break or the end, behind some that were read already. -/
partial def readLine (line : ByteArray) : IO ByteArray := do
  let next ← (← IO.getStdin).read 1
  if next.isEmpty then return line
  else if next.toList = [10] then return line ++ next
  else readLine (line ++ next)

/-- All bytes, behind some that were read already. -/
partial def readAll (bytes : ByteArray) : IO ByteArray := do
  let next ← (← IO.getStdin).read 65536
  if next.isEmpty then return bytes else readAll (bytes ++ next)

/-! ### Runs -/

/-- Prints a text on the standard output at once. -/
def display (text : String) : IO Unit := do
  let out ← IO.getStdout
  out.putStr text
  out.flush

/-- Prints what a filter shows of events. -/
def tell (filter : Console.Filter) (events : List Event) : IO Unit :=
  IO.eprint (Rendering.textOf (filter.lines events))

/-- A session, line by line, and its status. -/
partial def converse (filter : Console.Filter) (settings : Settings) (schema : Schema)
    (answered : Nat) : IO UInt32 := do
  display Session.prompt
  let line ← readLine .empty
  match String.fromUTF8? line with
  | none =>
    IO.eprintln (Program.failureLine (.inputUnread .notText))
    return Program.failureStatus.toUInt32
  | some "" =>
    display "\n"
    tell filter [.sessionEnded answered]
    return 0
  | some line =>
    match Session.respond schema settings line with
    | .quit =>
      tell filter [.sessionEnded answered]
      return 0
    | .nothing => converse filter settings schema answered
    | .answered block =>
      tell filter block.events
      display (Session.framed settings block.value)
      converse filter settings schema (answered + 1)

/-- A session with options, and its status. -/
def interact (filter : Console.Filter) (o : Options) (d : Directory) : IO UInt32 := do
  let prepared := Program.prepare o d
  tell filter prepared.events
  match prepared.value with
  | .error failure =>
    IO.eprintln (Program.failureLine failure)
    return Program.failureStatus.toUInt32
  | .ok (settings, schema) =>
    display Session.greeting
    converse filter settings schema 0

/-- Whether a run reads what is typed to its end. -/
def readsInput (o : Options) : Bool :=
  o.mode = .batch && o.requests.isNone

/-- A run with options, and its status. -/
def start (o : Options) : IO UInt32 := do
  let filter := Program.filter o ((← IO.getEnv "ENUMGEN_LOG").getD "warn")
  let d ← collect o
  if o.mode = .interactive then interact filter o d
  else
    let input ← if readsInput o then readAll .empty else pure .empty
    let run := Program.run o d input
    let report := Program.report filter run
    save d run.value.directory
    display report.shown
    IO.eprint report.told
    return report.status.toUInt32

end Main

end Enumerant

open Enumerant in
/-- The program. -/
def main (arguments : List String) : IO UInt32 := do
  match Options.parse arguments with
  | .ok o => Main.start o
  | .error .help =>
    IO.print Main.usage
    return 0
  | .error .version =>
    IO.print Main.version
    return 0
  | .error stop =>
    IO.eprintln ("error: " ++ Main.stopMessage stop)
    return Program.failureStatus.toUInt32
