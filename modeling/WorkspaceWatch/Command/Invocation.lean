import WorkspaceWatch.Command.Arguments
import WorkspaceWatch.Path.Basic

/-!
# What the program is asked to do

The program has two commands: `watch` watches a directory and reports batches, `config` shows the
settings. The file of the settings and the verbosity can be given before or after the name of the
command; given in both places, the later one holds.
-/

namespace WorkspaceWatch

/-- A command. -/
inductive Command where
  /-- Watch a directory, or else the working directory. -/
  | watch (root? : Option Path) (debounceMs? : Option UInt64) (json : Bool)
  /-- Show the settings. -/
  | config
  deriving DecidableEq, Repr

/-- What the program is asked to do. -/
structure Invocation where
  command : Command
  /-- The file of the settings. -/
  config? : Option Path := none
  verbose : Bool := false
  deriving DecidableEq, Repr

namespace Invocation

open Arguments

/-- The switches that can be given before and after the name of the command. -/
def sharedSwitches : List Switch :=
  [⟨"config", some 'c', .path⟩, ⟨"verbose", some 'v', .flag⟩, ⟨"help", some 'h', .stop .help⟩]

/-- What stands before the name of the command. -/
def programShape : Shape where
  switches := ⟨"version", some 'V', .stop .version⟩ :: sharedSwitches
  subcommands := ["watch", "config", "help"]

/-- What `watch` takes. -/
def watchShape : Shape where
  switches := ⟨"debounce-ms", none, .number⟩ :: ⟨"json", none, .flag⟩ :: sharedSwitches
  operands := [⟨"path", .path⟩]

/-- What `config` takes. -/
def configShape : Shape where
  switches := sharedSwitches

/-- A path that was given. -/
def path? (given : Given) (name : String) : Option Path := (given.lookup name).map Path.ofString

/-- The invocation of a command, with what was given before its name and after it. -/
def ofGiven (command : Command) (before after : Given) : Invocation where
  command
  config? := (path? after "config").or (path? before "config")
  verbose := (before ++ after).any fun g => g.1 = "verbose"

/-- The command `watch` with what was given after its name. -/
def watchOfGiven (given : Given) : Command :=
  .watch (path? given "path")
    ((given.lookup "debounce-ms").bind fun s => Spelling.uint64? s.toList)
    (given.any fun g => g.1 = "json")

/-- Why there is no invocation after `help`: what help is asked about has to exist. -/
def helpStop : List String → Stop
  | [] => .help
  | [topic] => if topic ∈ programShape.subcommands then .help else .refused
  | _ => .refused

/-- What the arguments ask for. -/
def ofArguments (args : List String) : Except Stop Invocation := do
  let reading ← read programShape args
  match reading.subcommand? with
  | some ("watch", args) =>
    let after ← read watchShape args
    return ofGiven (watchOfGiven after.given) reading.given after.given
  | some ("config", args) =>
    let after ← read configShape args
    return ofGiven .config reading.given after.given
  | some (_, args) => throw (helpStop args)
  | none => throw .refused

end Invocation

end WorkspaceWatch
