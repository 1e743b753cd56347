import WorkspaceWatch.Command.Invocation
import WorkspaceWatch.Command.Session
import WorkspaceWatch.Command.Trouble
import WorkspaceWatch.Settings.Store

/-!
# Running the program

`Invocation.run` is the whole program as a function: from the files, the variables of the
environment and what it is asked to do, to what it writes and how it ends. While it watches, a list
of edits is performed, and then it is told to stop.
-/

namespace WorkspaceWatch

/-- What the program wrote and how it ended. -/
structure Exit where
  /-- The exit status. -/
  code : Nat := 0
  /-- What it wrote on the standard output. -/
  output : List Char := []
  /-- What it said on the standard error output before it ended early. -/
  report : List Char := []
  /-- What it said after watching. -/
  summary? : Option String := none
  deriving DecidableEq, Repr

namespace Exit

/-- The end of a run that could not go on. -/
def ofTrouble (t : Trouble) : Exit := { code := t.code, report := t.report }

/-- What help says. -/
def helpText : List Char :=
  ("Watch a workspace and batch on-disk changes\n\n" ++
    "Usage: wsync [OPTIONS] <COMMAND>\n\n" ++
    "Commands:\n" ++
    "  watch   Watch a directory and report debounced change batches\n" ++
    "  config  Print the effective configuration as TOML\n" ++
    "  help    Print this message or the help of the given subcommand(s)\n\n" ++
    "Options:\n" ++
    "  -c, --config <FILE>  Configuration file path\n" ++
    "  -v, --verbose        Verbose logging\n" ++
    "  -h, --help           Print help\n" ++
    "  -V, --version        Print version\n").toList

/-- What is said about arguments that are not understood. -/
def usageText : List Char :=
  ("error: the arguments are not understood\n\n" ++
    "Usage: wsync [OPTIONS] <COMMAND>\n\n" ++
    "For more information, try '--help'.\n").toList

/-- The end where there is nothing to run. -/
def ofStop : Arguments.Stop → Exit
  | .refused => { code := 2, report := usageText }
  | .help => { output := helpText }
  | .version => { output := "wsync 0.1.0\n".toList }

end Exit

namespace Invocation

/-- The settings that an invocation runs with. -/
def settings (fs : FileSystem) (env : Environment) (config? : Option Path) :
    Except Trouble Settings :=
  (Settings.load fs env config?).mapError fun
    | .failure f => .ofFailureIn "Failed to load configuration" f
    | .panic message => { headline := message, isPanic := true }

/-- The text of the settings. -/
def showSettings (fs : FileSystem) (env : Environment) (config? : Option Path) :
    Except Trouble (List Char) := do
  let s ← settings fs env config?
  match s.tomlText? with
  | some text => return text.toList
  | none => throw { headline := "Failed to render configuration", causes := [Settings.outOfRange] }

/-- Begins to watch. A window among the arguments prevails over the one in the settings. -/
def startWatching (fs : FileSystem) (env : Environment) (config? : Option Path)
    (root? : Option Path) (debounceMs? : Option UInt64) (json : Bool) :
    Except Trouble Session := do
  let s ← settings fs env config?
  let s := { s with watcher.debounceMs := debounceMs?.getD s.watcher.debounceMs }
  s.validate.mapError .ofFailure
  let root := root?.getD fs.workingDirectory.path
  (Session.start fs s.watcher root (if json then .json else .log)).mapError
    (.ofFailureIn ("Failed to watch " ++ root.text))

/-- Runs an invocation. While it watches, the edits are performed one after the other, with time to
report each. -/
def run (i : Invocation) (fs : FileSystem) (env : Environment)
    (edits : List Edit) : Exit :=
  match i.command with
  | .config =>
    match showSettings fs env i.config? with
    | .ok text => { output := text }
    | .error t => .ofTrouble t
  | .watch root? debounceMs? json =>
    match startWatching fs env i.config? root? debounceMs? json with
    | .ok session =>
      let session := edits.foldl (fun s e => (s.edit e).rest) session
      { output := session.output, summary? := some (Session.summary session.close) }
    | .error t => .ofTrouble t

/-- Runs the program with arguments. -/
def runArguments (args : List String) (fs : FileSystem) (env : Environment)
    (edits : List Edit) : Exit :=
  match ofArguments args with
  | .ok i => i.run fs env edits
  | .error stop => .ofStop stop

end Invocation

end WorkspaceWatch
