import Enumerant.Options

/-!
# Reading options

An argument with two dashes gives one option by its name, one with a single dash gives several by
their letters, and any other is a value: of the option before it as long as that takes more, and
otherwise the file of requests. An option that still collects values is settled when the next one is
found or when the arguments end, so what is wrong with its values shows only then.
-/

namespace Enumerant.Options

/-! ### Parameters -/

/-- What arguments can give. -/
inductive Parameter where
  | requests
  | source
  | settings
  | patch
  | output
  | interactive
  | listGroups
  | dump
  | describe
  | debug
  | help
  | version
  deriving DecidableEq, Repr

namespace Parameter

/-- How many values a parameter takes each time. -/
def arity : Parameter → Nat
  | requests | source | settings | patch | output | dump => 1
  | describe => 2
  | interactive | listGroups | debug | help | version => 0

/-- Whether the value of a parameter is a path, which cannot be empty. -/
def isPath : Parameter → Bool
  | requests | source | settings | patch | output => true
  | _ => false

/-- The parameter of a name. -/
def ofName? : String → Option Parameter
  | "source" => some source
  | "config" => some settings
  | "patch" => some patch
  | "output" => some output
  | "interactive" => some interactive
  | "list-groups" => some listGroups
  | "dump-json" => some dump
  | "describe" => some describe
  | "debug" => some debug
  | "help" => some help
  | "version" => some version
  | _ => none

/-- The parameter of a letter. -/
def ofLetter? : Char → Option Parameter
  | 's' => some source
  | 'c' => some settings
  | 'p' => some patch
  | 'o' => some output
  | 'i' => some interactive
  | 'h' => some help
  | 'V' => some version
  | _ => none

end Parameter

/-- Why arguments do not give options; asking for help or for the version is a reason too. -/
inductive Stop where
  | unknown (argument : String)
  | missingValue (p : Parameter)
  | emptyPath (p : Parameter)
  | wrongCount (p : Parameter) (count : Nat)
  | needlessValue (p : Parameter)
  | repeated (p : Parameter)
  | outputAlone
  | help
  | version
  deriving DecidableEq, Repr

/-! ### Settling a parameter -/

/-- Whether a parameter has been given that can be given only once. -/
def isGiven (o : Options) : Parameter → Bool
  | .requests => o.requests.isSome
  | .source => o.source.isSome
  | .settings => o.settings.isSome
  | .patch => o.patch.isSome
  | .output => o.output.isSome
  | .dump => o.dump.isSome
  | .interactive => o.interactive
  | .listGroups => o.listGroups
  | .debug => o.debug
  | .describe | .help | .version => false

/-- Options with a parameter set to the first of its values, or to all of them. -/
def set (o : Options) (p : Parameter) (values : List String) : Options :=
  match p with
  | .requests => { o with requests := values.head? }
  | .source => { o with source := values.head? }
  | .settings => { o with settings := values.head? }
  | .patch => { o with patch := values.head? }
  | .output => { o with output := values.head? }
  | .dump => { o with dump := values.head? }
  | .interactive => { o with interactive := true }
  | .listGroups => { o with listGroups := true }
  | .debug => { o with debug := true }
  | .describe => { o with describe := o.describe ++ values }
  | .help | .version => o

/-- Options after a parameter is given with values. -/
def give (o : Options) (p : Parameter) (values : List String) : Except Stop Options :=
  if values = [] ∧ p.arity ≠ 0 then .error (.missingValue p)
  else if values.length ≠ p.arity then .error (.wrongCount p values.length)
  else if p = .help then .error .help
  else if p = .version then .error .version
  else if o.isGiven p then .error (.repeated p)
  else if p.isPath ∧ "" ∈ values then .error (.emptyPath p)
  else .ok (o.set p values)

/-! ### Arguments -/

/-- A parameter whose values are being collected. -/
structure Pending where
  parameter : Parameter
  values : List String := []
  deriving DecidableEq, Repr

/-- What the arguments so far have given. -/
structure Progress where
  options : Options := {}
  pending : Option Pending := none
  /-- Whether a file of requests has been named. -/
  positional : Bool := false
  /-- Whether all that follows is to be taken as values. -/
  valuesOnly : Bool := false
  deriving DecidableEq, Repr

namespace Progress

/-- The state after what is pending is settled. -/
def settle (s : Progress) : Except Stop Progress :=
  match s.pending with
  | none => .ok s
  | some p =>
    (s.options.give p.parameter p.values).map fun options => { s with options, pending := none }

/-- The state after a parameter is found, with the value that is attached to it if there is one. -/
def found (s : Progress) (p : Parameter) (attached : Option String) : Except Stop Progress :=
  match s.settle with
  | .error stop => .error stop
  | .ok s =>
    match attached with
    | some value => (s.options.give p [value]).map fun options => { s with options }
    | none =>
      if p.arity = 0 then (s.options.give p []).map fun options => { s with options }
      else .ok { s with pending := some { parameter := p } }

/-- The state after an argument that gives an option by its name. -/
def named (s : Progress) (argument : String) (body : List Char) : Except Stop Progress :=
  let name := body.takeWhile (· != '=')
  let attached := match body.dropWhile (· != '=') with
    | [] => none
    | _ :: value => some (String.ofList value)
  match Parameter.ofName? (String.ofList name) with
  | none => .error (.unknown argument)
  | some p =>
    if attached.isSome ∧ p.arity = 0 then .error (.needlessValue p) else s.found p attached

/-- The state after letters. A letter that takes values takes what is left as its first, without an
equals sign in front. -/
def letters (s : Progress) : List Char → Except Stop Progress
  | [] => .ok s
  | c :: cs =>
    match Parameter.ofLetter? c with
    | none => .error (.unknown (String.ofList ['-', c]))
    | some p =>
      if p.arity = 0 then
        match s.found p none with
        | .error stop => .error stop
        | .ok s => s.letters cs
      else
        s.found p <|
          match cs with
          | [] => none
          | '=' :: value => some (String.ofList value)
          | value => some (String.ofList value)

/-- The state after an argument that names the file of requests. -/
def positionalValue (s : Progress) (argument : String) : Except Stop Progress :=
  if s.positional then .error (.unknown argument)
  else
    s.settle.map fun s =>
      { s with
        pending := some { parameter := .requests, values := [argument] }
        positional := true }

/-- The state after an argument that is no option. -/
def value (s : Progress) (argument : String) : Except Stop Progress :=
  match s.valuesOnly, s.pending with
  | false, some p =>
    if p.values.length < p.parameter.arity then
      .ok { s with pending := some { p with values := p.values ++ [argument] } }
    else s.positionalValue argument
  | _, _ => s.positionalValue argument

/-- The state after an argument. -/
def step (s : Progress) (argument : String) : Except Stop Progress :=
  if s.valuesOnly then s.value argument
  else
    match argument.toList with
    | ['-', '-'] => .ok { s with valuesOnly := true }
    | '-' :: '-' :: body => s.named argument body
    | '-' :: c :: cs => s.letters (c :: cs)
    | _ => s.value argument

end Progress

/-- The options that arguments give. Where the output goes can be said only of a patch. -/
def parse (arguments : List String) : Except Stop Options :=
  match (arguments.foldlM Progress.step {}).bind Progress.settle with
  | .error stop => .error stop
  | .ok s =>
    if s.options.output.isSome ∧ s.options.patch.isNone then .error .outputAlone
    else .ok s.options

end Enumerant.Options
