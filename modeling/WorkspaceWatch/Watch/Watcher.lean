import WorkspaceWatch.Settings.Basic
import WorkspaceWatch.Watch.Loop

/-!
# Watchers

A watcher covers the tree at a root and runs the event loop on it. Starting one either succeeds or
leaves nothing behind; the first of these conditions that is not met is reported: there is something
to run the loop on, the root is a directory, every ignore pattern can be compiled, and every
directory of the tree can be registered.

The root is known by its canonical path, whatever path it was given by.
-/

namespace WorkspaceWatch

/-- A watcher: its root, what it was set up with, and its loop. -/
structure Watcher where
  /-- The canonical path of the root. -/
  root : Path
  plan : Plan
  loop : Loop

/-- The plan that settings describe. -/
def WatcherSettings.plan (s : WatcherSettings) (policy : Backend.Policy) :
    Except Glob.PatternError Plan :=
  (IgnoreRules.compile s.ignorePatterns).map fun ignore =>
    { scope := { ignore, followLinks := s.followSymlinks }
      policy
      window := s.debounceMs.toNat
      resync := s.resyncOnNotifyFailure }

namespace Watcher

/-- The canonical path of a root, which has to be a directory. -/
def resolveRoot (fs : FileSystem) (root : Path) : Except Failure Path :=
  match fs.status root with
  | .error e =>
    .error (.watchSetup root (if e = .missing then "root does not exist" else e.message))
  | .ok n =>
    if n.isDirectory then
      (fs.canonicalize root).mapError fun e => .watchSetup root e.message
    else .error (.watchSetup root "root is not a directory")

/-- What is said when there is nothing to run the loop on. -/
def noRuntime : String :=
  "no Tokio runtime: there is no reactor running, " ++
    "must be called from the context of a Tokio 1.x runtime"

/-- Starts a watcher of the tree at `root`, counting on from `tally`. -/
def start (fs : FileSystem) (policy : Backend.Policy) (settings : WatcherSettings)
    (root : Path) (tally : Tally) (hasRuntime : Bool) : Except Failure Watcher := do
  if !hasRuntime then throw (.watchSetup root noRuntime)
  let root ← resolveRoot fs root
  let plan ← (settings.plan policy).mapError fun e =>
    .config ("Failed to create ignore filter: " ++ e.message)
  let (coverage, registered) := Coverage.registerRoot fs plan.scope policy { tally } root
  let _ ← registered
  return { root, plan, loop := .start plan coverage }

/-- The registered directories and all that is counted. -/
def coverage (w : Watcher) : Coverage := w.loop.intake.coverage

/-- The registered directories, in order. -/
def directories (w : Watcher) : List Path := Path.sorted w.coverage.directories

/-- The path is a registered directory. -/
def isWatching (w : Watcher) (p : Path) : Bool := w.coverage.isRegistered p

/-- The counters. -/
def tally (w : Watcher) : Tally := w.coverage.tally

/-- The watcher as it is shown to a developer. -/
def description (w : Watcher) : String :=
  "ChangeWatcher \x7b root: " ++ Escaped.quoteBytes w.root.bytes ++
    ", directories: " ++ toString w.coverage.directories.length ++
    ", running: " ++ toString w.loop.isRunning ++ " \x7d"

/-- Stops a watcher: what is pending is dropped and every watch is released. -/
def close (w : Watcher) : Watcher :=
  let loop := (w.loop.perform w.plan .cancel).1.stop.1
  { w with
    loop := { loop with
      intake := { loop.intake with
        coverage := { loop.intake.coverage with directories := [], backend := {} } } } }

/-- Watches until a shutdown that is due at once: what was counted by then. -/
def runUntilShutdown (fs : FileSystem) (settings : WatcherSettings) (root : Path) :
    Except Failure Tally :=
  (start fs Backend.acceptAll settings root {} true).map fun w => w.close.tally

end Watcher

end WorkspaceWatch
