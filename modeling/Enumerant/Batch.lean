import Enumerant.Rendering
import Enumerant.Request.Line
import Enumerant.Text.Lines

/-!
# Batches

A batch answers the requests on the lines of a text with one header. Each line comes to an entry
that depends on that line and its number alone, and the header is put together from the entries.
-/

namespace Enumerant.Batch

/-! ### Entries -/

/-- What one line of a batch comes to. -/
inductive Entry where
  /-- The line asks for nothing. -/
  | nothing
  | skipped (fault : Request.Fault)
  | missing (group : String)
  | generated (block : String)
  deriving DecidableEq, Repr

/-- The block that an entry contributes to the header. -/
def Entry.block? : Entry → Option String
  | nothing => none
  | skipped _ => none
  | missing group => some (missingNote group)
  | generated block => some block

/-- What the line of the given number comes to. -/
def entry (schema : Schema) (settings : Settings) (line : String) (number : Nat) : Logged Entry :=
  match Request.parse line.toList number with
  | .ok none => { value := .nothing }
  | .error fault => { value := .skipped fault, events := [.requestSkipped fault] }
  | .ok (some request) =>
    match schema.answer? settings request with
    | some answer => { value := .generated answer.value, events := answer.events }
    | none =>
      { value := .missing request.group, events := [.requestUnanswered request.group] }

/-- What lines come to, counted from the given number. -/
def entriesFrom (schema : Schema) (settings : Settings) (number : Nat) :
    List String → List (Logged Entry)
  | [] => []
  | line :: lines =>
    entry schema settings line number :: entriesFrom schema settings (number + 1) lines

/-! ### The header -/

/-- The banner with its empty lines. -/
def bannerBlock (settings : Settings) : String :=
  "\n" ++ settings.banner ++ "\n\n"

/-- What stands in front of the blocks. -/
def prologue (settings : Settings) (stringHeader : Bool) : String :=
  "#pragma once\n\n"
    ++ "// This file was auto-generated by enumgen. Do not edit.\n\n"
    ++ "#include <stdint.h>\n"
    ++ (if stringHeader then "#include <string>\n" else "")
    ++ (if settings.namespaceName = "" then ""
        else "\nnamespace " ++ settings.namespaceName ++ " \x7b\n")

/-- What stands behind the blocks. -/
def epilogue (settings : Settings) : String :=
  bannerBlock settings
    ++ (if settings.namespaceName = "" then ""
        else "\x7d // end namespace " ++ settings.namespaceName ++ "\n")

/-- The header made of blocks. -/
def header (settings : Settings) (blocks : List String) : String :=
  prologue settings (blocks.any needsStringHeader)
    ++ String.join (blocks.map fun block => bannerBlock settings ++ block)
    ++ epilogue settings

/-! ### Batches -/

/-- How many requests were answered, had no group, and were not understood. -/
structure Summary where
  generated : Nat := 0
  notFound : Nat := 0
  skipped : Nat := 0
  deriving DecidableEq, Repr

/-- A summary with one more entry counted. -/
def Summary.count (s : Summary) : Entry → Summary
  | .nothing => s
  | .skipped _ => { s with skipped := s.skipped + 1 }
  | .missing _ => { s with notFound := s.notFound + 1 }
  | .generated _ => { s with generated := s.generated + 1 }

/-- The summary of entries. -/
def summary (entries : List Entry) : Summary :=
  entries.foldl Summary.count {}

/-- A finished batch. -/
structure Output where
  text : String
  summary : Summary
  deriving DecidableEq, Repr

/-- What the entries of a batch come to. -/
def output (settings : Settings) (entries : List Entry) : Output :=
  ⟨header settings (entries.filterMap Entry.block?), summary entries⟩

/-- The lines that can be decoded, up to the first that cannot. -/
def readable : List (Option String) → List String
  | [] => []
  | none :: _ => []
  | some line :: lines => line :: readable lines

/-- The batch of the requests in a sequence of bytes. There is none if the bytes are no UTF-8, but
then the lines before the first bad one have been answered. -/
def run (schema : Schema) (settings : Settings) (bytes : ByteArray) : Logged (Option Output) :=
  let lines := Text.decodedLines bytes
  let entries := entriesFrom schema settings 1
    ((readable lines).map fun line => String.ofList (Text.withoutBreak line.toList))
  { value :=
      if lines.all Option.isSome then some (output settings (entries.map Logged.value)) else none
    events := entries.flatMap Logged.events }

end Enumerant.Batch
