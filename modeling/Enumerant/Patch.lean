import Enumerant.Failure
import Enumerant.Rendering

/-!
# Patching files

The regions of a file are generated anew and the result is written, to the same file or another, or
shown. A file that is about to be overwritten is kept under another name. Nothing is written unless
the whole file could be read and its markers bound regions.
-/

namespace Enumerant

namespace Patch

/-- The block that belongs into a region. -/
def block (schema : Schema) (settings : Settings) (region : Region) : Logged String :=
  (schema.answer? settings region.request).getD
    { value := missingNote region.tag, events := [.regionUnanswered region.tag] }

/-- A text with its regions generated anew. -/
structure Patched where
  text : String
  regions : Nat
  deriving DecidableEq, Repr

/-- The text of a file with its regions generated anew. -/
def text (schema : Schema) (settings : Settings) (path old : String) :
    Logged (Except Region.Fault Patched) :=
  let lines := Text.lines old
  match Region.scan lines with
  | .error fault => { value := .error fault }
  | .ok regions =>
    let blocks := regions.map (block schema settings)
    { value := .ok
        { text := String.join
            (Region.replace (regions.zip (blocks.map Logged.value)) lines)
          regions := regions.length }
      events := .markersScanned path regions.length :: blocks.flatMap Logged.events }

/-! ### Files -/

/-- The path under which the file at a path is kept. -/
def backupPath (path : String) : String :=
  path ++ ".backup"

/-- What patching a file did: how many regions were generated, what was shown, where the overwritten
file was kept, and what the directory holds now. -/
structure Outcome where
  regions : Nat
  shown : String := ""
  backup : Option String := none
  directory : Directory

/-- The directory in which a text is written to a path, and where the file that was there is kept.
-/
def save (d : Directory) (path text : String) : Except Failure (Option String × Directory) :=
  match d.read path with
  | .ok old =>
    match d.write (backupPath path) old with
    | .error fault => .error (.backupUnwritten path fault)
    | .ok kept =>
      match kept.write path text.toUTF8 with
      | .error fault => .error (.patchUnwritten path fault)
      | .ok d => .ok (some (backupPath path), d)
  | .error _ =>
    match d.write path text.toUTF8 with
    | .error fault => .error (.patchUnwritten path fault)
    | .ok d => .ok (none, d)

/-- Where a patched text goes: to a path, or else it is shown. -/
def deliver (d : Directory) (output : Option String) (p : Patched) : Except Failure Outcome :=
  match output with
  | none => .ok { regions := p.regions, shown := p.text, directory := d }
  | some path =>
    (save d path p.text).map fun (backup, directory) =>
      { regions := p.regions, backup, directory }

end Patch

/-- Patches the file at a path. -/
def Directory.patch (d : Directory) (schema : Schema) (settings : Settings) (input : String)
    (output : Option String) : Logged (Except Failure Patch.Outcome) :=
  match d.readText input with
  | .error fault => { value := .error (.patchUnread input fault) }
  | .ok old =>
    let patched := Patch.text schema settings input old
    Logged.andThen { patched with value := patched.value.mapError (.markersFaulty input) } fun p =>
      { value := Patch.deliver d output p }

end Enumerant
