import Enumerant.Failure

/-!
# Runs

A run goes step by step. Each of its steps may read the directory, change it, or show something, and
may fail. A failure ends the run but takes nothing back: the world stays as the steps before have
left it.
-/

namespace Enumerant

/-- What a run can change: the directory, what it has shown so far, what it has to note at its end,
and what there is to tell of it. -/
structure World where
  directory : Directory
  shown : String := ""
  notes : List String := []
  events : List Event := []

/-- A part of a run. -/
abbrev Run (α : Type) : Type :=
  ExceptT Failure (StateM World) α

namespace Run

variable {α : Type}

/-- What a part of a run comes to in a world, and the world that it leaves. -/
def exec (r : Run α) (w : World) : Except Failure α × World :=
  StateT.run (ExceptT.run r) w

/-! ### Steps -/

/-- The directory as it is at this point. -/
def directory : Run Directory := do
  return (← get).directory

/-- Goes on with what was found, or fails for the same reason. -/
def ofExcept (found : Except Failure α) : Run α :=
  match found with
  | .ok a => pure a
  | .error failure => throw failure

/-- Tells events. -/
def tell (events : List Event) : Run Unit :=
  modify fun w => { w with events := w.events ++ events }

/-- Tells the events of finding something and goes on with it. -/
def ofLogged (found : Logged (Except Failure α)) : Run α := do
  tell found.events
  ofExcept found.value

/-- Shows a text. -/
def display (text : String) : Run Unit :=
  modify fun w => { w with shown := w.shown ++ text }

/-- Notes lines for the end. -/
def note (lines : List String) : Run Unit :=
  modify fun w => { w with notes := w.notes ++ lines }

/-- Writes a file; `cause` tells what a fault means for the run. -/
def write (path : String) (contents : ByteArray) (cause : Directory.Fault → Failure) :
    Run Unit := do
  match (← directory).write path contents with
  | .ok d => modify fun w => { w with directory := d }
  | .error fault => throw (cause fault)

end Run

end Enumerant
