import Enumerant.Patch.Marker
import Enumerant.Text.Lines
import Enumerant.Text.Part

/-!
# Regions

A region is what stands between an opening marker and the closing marker of the same tag. Regions
are found one after the other, each told by its distance from the one before, and what they hold is
replaced while the markers and everything outside stay.
-/

namespace Enumerant

/-- A region of a file. -/
structure Region where
  tag : String
  storage : Option String := none
  style : Style := .enumClass
  /-- The number of lines from the closing marker before, or from the top, to the opening marker. -/
  offset : Nat
  /-- The number of lines from the opening to the closing marker. -/
  length : Nat
  deriving DecidableEq, Repr

/-- The request that a region stands for. -/
def Region.request (r : Region) : Request where
  group := r.tag
  style := r.style
  storage := r.storage

namespace Region

/-! ### Finding regions -/

/-- Why the markers of a file do not bound regions; lines are counted from one. -/
inductive Fault where
  | notOpened (line : Nat) (tag : String)
  | notClosed (line : Nat) (tag found : String)
  | unterminated (line : Nat) (tag : String)
  deriving DecidableEq, Repr

/-- The wording of a fault. -/
def Fault.message : Fault → String
  | notOpened line tag =>
    "line " ++ toString line ++ ": </" ++ tag ++ "> closes a region that was never opened"
  | notClosed line tag found =>
    "line " ++ toString line ++ ": <" ++ tag ++ "> is not closed before <" ++ found ++ ">"
  | unterminated line tag =>
    "<" ++ tag ++ "> opened on line " ++ toString line ++ " is never closed"

/-- A region whose closing marker has not been found yet, and the index of its opening marker. -/
structure Pending where
  tag : String
  storage : Option String
  style : Style
  index : Nat
  deriving DecidableEq, Repr

/-- The regions in lines that start at an index, when the last closing marker stood at another and a
region may be open. -/
def scanFrom (index lastClose : Nat) (pending : Option Pending) :
    List String → Except Fault (List Region)
  | [] =>
    match pending with
    | none => .ok []
    | some p => .error (.unterminated (p.index + 1) p.tag)
  | line :: lines =>
    match Marker.parse? line.toList, pending with
    | none, pending => scanFrom (index + 1) lastClose pending lines
    | some (.opening tag storage style), none =>
      scanFrom (index + 1) lastClose (some ⟨tag, storage, style, index⟩) lines
    | some (.closing tag), none => .error (.notOpened (index + 1) tag)
    | some (.opening found _ _), some p => .error (.notClosed (index + 1) p.tag found)
    | some (.closing tag), some p =>
      if tag = p.tag then
        (scanFrom (index + 1) index none lines).map
          (⟨p.tag, p.storage, p.style, p.index - lastClose, index - p.index⟩ :: ·)
      else .error (.notClosed (index + 1) p.tag ("/" ++ tag))

/-- The regions of a file, given by its lines. -/
def scan (lines : List String) : Except Fault (List Region) :=
  scanFrom 0 0 none lines

/-! ### Replacing what they hold -/

/-- Lines in which every region holds the text paired with it, when the closing marker before the
first of them stands at an index. What is put in moves the lines behind it, so each index is counted
from where the last text ended. There are no such lines if a region reaches beyond the given ones.
-/
def replaceFrom (anchor : Nat) : List (Region × String) → List String → Option (List String)
  | [], lines => some lines
  | (region, text) :: rest, lines =>
    let start := anchor + region.offset + 1
    let new := Text.lines text
    (Text.splice? start (region.length - 1) new lines).bind (replaceFrom (start + new.length) rest)

/-- Lines in which every region holds the text paired with it. Lines to which the regions do not
belong stay as they are. -/
def replace (changes : List (Region × String)) (lines : List String) : List String :=
  (replaceFrom 0 changes lines).getD lines

end Region

end Enumerant
