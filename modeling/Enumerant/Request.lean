/-!
# Requests

A request asks for one group to be generated, in one of two styles.
-/

namespace Enumerant

/-- The two kinds of declaration that can be generated. -/
inductive Style where
  /-- A scoped enumeration with members in camel case. -/
  | enumClass
  /-- A plain C enumeration with tagged members in upper snake case. -/
  | plainEnum
  deriving DecidableEq, Repr

/-- The name of a style in messages. -/
def Style.label : Style → String
  | enumClass => "Scoped"
  | plainEnum => "Legacy"

/-- What is asked for: a group by its full or short name, with or without functions that give the
names of its values, in a style, and with a storage type other than the one that fits. -/
structure Request where
  group : String
  table : Bool := false
  style : Style := .enumClass
  storage : Option String := none
  deriving DecidableEq, Repr

namespace Request

/-- What is wrong with a line that should hold a request. -/
inductive Cause where
  | missingGroup
  | invalidGroup (name : String)
  | invalidFlag (value : String)
  | invalidStyle (value : String)
  | tooManyFields (count : Nat)
  deriving DecidableEq, Repr

/-- What is wrong with a line that should hold a request, and the number of the line. -/
structure Fault where
  line : Nat
  cause : Cause
  deriving DecidableEq, Repr

/-- The wording of a cause. -/
def Cause.message : Cause → String
  | missingGroup => "missing group name"
  | invalidGroup name => "`" ++ name ++ "` is not a valid group name"
  | invalidFlag value => "expected yes/no for the string table flag, got `" ++ value ++ "`"
  | invalidStyle value => "unknown style `" ++ value ++ "` (expected `c` or nothing)"
  | tooManyFields count => "expected at most 3 fields, got " ++ toString count

/-- The wording of a fault. -/
def Fault.message (f : Fault) : String :=
  "line " ++ toString f.line ++ ": " ++ f.cause.message

end Request

end Enumerant
