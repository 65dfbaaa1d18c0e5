/-!
# Options

What a run is asked to do, and the choice among the things that it can do. Listing and looking up
win over patching, patching wins over a session, and a batch is what remains.
-/

namespace Enumerant

/-- What the arguments of a run say. -/
structure Options where
  /-- The file with the requests of a batch. -/
  requests : Option String := none
  source : Option String := none
  settings : Option String := none
  patch : Option String := none
  output : Option String := none
  interactive : Bool := false
  listGroups : Bool := false
  dump : Option String := none
  /-- Groups and values to be described, two for each time that it was asked for. -/
  describe : List String := []
  debug : Bool := false
  deriving DecidableEq, Repr

/-- What a run does. -/
inductive Mode where
  | batch
  | patch (input : String)
  | interactive
  | listGroups
  | dump (group : String)
  | describe (group value : String)
  deriving DecidableEq, Repr

/-- The mode that options choose. To describe several values at once is no mode. -/
def Options.mode (o : Options) : Mode :=
  if o.listGroups then .listGroups
  else
    match o.dump, o.describe, o.patch with
    | some group, _, _ => .dump group
    | none, [group, value], _ => .describe group value
    | none, _, some input => .patch input
    | none, _, none => if o.interactive then .interactive else .batch

end Enumerant
