import WorkspaceWatch.Number.Spelling

/-!
# Command line arguments

A command takes **switches**, **operands** and perhaps a subcommand with arguments of its own.
Arguments are read from left to right, and the first fault or request for help ends the reading.

A switch has a long form `--name` and perhaps a short form `-n`. Short forms may be run together.
The value of a switch follows as the next argument, after `=`, or right after a short form; as an
argument of its own it does not begin with a dash, unless it is nothing but a dash. After `--`
everything is an operand. No switch may be given twice.
-/

namespace WorkspaceWatch

namespace Arguments

/-- Why reading ended early. -/
inductive Stop where
  /-- The arguments are not understood. -/
  | refused
  /-- Help is asked for. -/
  | help
  /-- The version is asked for. -/
  | version
  deriving DecidableEq, Repr

/-- What is given with a switch or as an operand. -/
inductive Kind where
  /-- Nothing: the switch is on. -/
  | flag
  /-- A path, which is not empty. -/
  | path
  /-- A natural number below `2 ^ 64`. -/
  | number
  /-- Nothing: reading stops. -/
  | stop (s : Stop)
  deriving DecidableEq, Repr

namespace Kind

/-- A value has to be given. -/
def takesValue : Kind → Bool
  | flag | stop _ => false
  | path | number => true

/-- The value can be given. -/
def accepts (value : String) : Kind → Bool
  | path => value ≠ ""
  | number => (Spelling.uint64? value.toList).isSome
  | flag | stop _ => true

end Kind

/-- A switch. -/
structure Switch where
  name : String
  short? : Option Char := none
  kind : Kind
  deriving DecidableEq, Repr

/-- An operand. -/
structure Operand where
  name : String
  kind : Kind
  deriving DecidableEq, Repr

/-- What a command takes. -/
structure Shape where
  switches : List Switch
  operands : List Operand := []
  subcommands : List String := []
  deriving DecidableEq, Repr

/-- What was given, by name. -/
abbrev Given := List (String × String)

/-- What was given with one more value. -/
def Given.add (given : Given) (name : String) (kind : Kind) (value : String) :
    Except Stop Given :=
  if given.any (fun g => g.1 = name) ∨ !kind.accepts value then .error .refused
  else .ok (given ++ [(name, value)])

/-- What was given, and the switch whose value comes next, if there is one. -/
abbrev Pending := Given × Option Switch

/-- Takes in short forms run together. -/
def readShort (shape : Shape) : List Char → Given → Except Stop Pending
  | [], given => .ok (given, none)
  | c :: cs, given =>
    match shape.switches.find? fun s => s.short? = some c with
    | none => .error .refused
    | some switch =>
      match switch.kind, cs with
      | .stop s, _ => .error s
      | .flag, _ =>
        match given.add switch.name .flag "" with
        | .error e => .error e
        | .ok given => readShort shape cs given
      | _, [] => .ok (given, some switch)
      | kind, '=' :: value => (given.add switch.name kind (String.ofList value)).map (·, none)
      | kind, value => (given.add switch.name kind (String.ofList value)).map (·, none)

/-- Takes in a long form without its dashes. -/
def readLong (shape : Shape) (s : List Char) (given : Given) : Except Stop Pending :=
  let name := String.ofList (s.takeWhile (· ≠ '='))
  let value? : Option String :=
    match s.dropWhile (· ≠ '=') with
    | [] => none
    | _ :: value => some (String.ofList value)
  match shape.switches.find? fun s => s.name = name with
  | none => .error .refused
  | some switch =>
    match switch.kind.takesValue, value? with
    | true, some value => (given.add switch.name switch.kind value).map (·, none)
    | true, none => .ok (given, some switch)
    | false, some _ => .error .refused
    | false, none =>
      match switch.kind with
      | .stop s => .error s
      | kind => (given.add switch.name kind "").map (·, none)

/-- Takes in operands. -/
def readOperands : (args : List String) → List Operand → Given → Except Stop Given
  | [], _, given => .ok given
  | _ :: _, [], _ => .error .refused
  | arg :: args, operand :: operands, given =>
    match given.add operand.name operand.kind arg with
    | .error e => .error e
    | .ok given => readOperands args operands given

/-- What was given to a command, and its subcommand with the arguments after it. -/
structure Reading where
  given : Given := []
  subcommand? : Option (String × List String) := none
  deriving DecidableEq, Repr

/-- Reads arguments, of which some were read before. -/
def readFrom (shape : Shape) : (args : List String) → List Operand → Pending →
    Except Stop Reading
  | [], _, (given, none) => .ok { given }
  | [], _, (_, some _) => .error .refused
  | arg :: args, operands, (given, pending?) =>
    if pending? = none ∧ arg ∈ shape.subcommands then
      .ok { given, subcommand? := some (arg, args) }
    else
      match arg.toList, pending? with
      | ['-', '-'], none => (readOperands args operands given).map fun given => { given }
      | '-' :: '-' :: name, none =>
        match readLong shape name given with
        | .error e => .error e
        | .ok pending => readFrom shape args operands pending
      | '-' :: c :: cs, none =>
        match readShort shape (c :: cs) given with
        | .error e => .error e
        | .ok pending => readFrom shape args operands pending
      | '-' :: _ :: _, some _ => .error .refused
      | _, some switch =>
        match given.add switch.name switch.kind arg with
        | .error e => .error e
        | .ok given => readFrom shape args operands (given, none)
      | _, none =>
        match operands with
        | [] => .error .refused
        | operand :: operands =>
          match given.add operand.name operand.kind arg with
          | .error e => .error e
          | .ok given => readFrom shape args operands (given, none)

/-- Reads the arguments of a command. -/
def read (shape : Shape) (args : List String) : Except Stop Reading :=
  readFrom shape args shape.operands ([], none)

end Arguments

end WorkspaceWatch
