import WorkspaceWatch.Failure
import WorkspaceWatch.Ignore

/-!
# Settings

What a user can set: how a tree is watched and how snapshots are acquired. Every setting has a
default. `Settings.validate` says whether settings can be used at all.
-/

namespace WorkspaceWatch

/-- How a tree is watched. -/
structure WatcherSettings where
  /-- How many milliseconds it has to be quiet before a batch is delivered. -/
  debounceMs : UInt64 := 500
  /-- Patterns of paths that are neither watched nor reported. -/
  ignorePatterns : List String := []
  /-- Directories behind links are watched too. -/
  followSymlinks : Bool := false
  /-- After a rejected batch every file is reported again. -/
  resyncOnNotifyFailure : Bool := false
  deriving DecidableEq, Repr

/-- How snapshots are acquired. -/
structure AggregatorSettings where
  /-- The snapshots of all views are acquired at the same time, not one after the other. -/
  concurrentAcquisition : Bool := true
  deriving DecidableEq, Repr

/-- All settings. -/
structure Settings where
  watcher : WatcherSettings := {}
  aggregator : AggregatorSettings := {}
  deriving DecidableEq, Repr

/-- One step in building up the settings of a watcher. -/
inductive WatcherSetting where
  | debounceMs (milliseconds : UInt64)
  /-- One more pattern. -/
  | ignorePattern (pattern : String)
  /-- These patterns instead of all earlier ones. -/
  | ignorePatterns (patterns : List String)
  | followSymlinks (follow : Bool)
  | resyncOnNotifyFailure (resync : Bool)
  deriving DecidableEq, Repr

namespace WatcherSettings

/-- The settings after one step. -/
def set (s : WatcherSettings) : WatcherSetting → WatcherSettings
  | .debounceMs n => { s with debounceMs := n }
  | .ignorePattern p => { s with ignorePatterns := s.ignorePatterns ++ [p] }
  | .ignorePatterns ps => { s with ignorePatterns := ps }
  | .followSymlinks b => { s with followSymlinks := b }
  | .resyncOnNotifyFailure b => { s with resyncOnNotifyFailure := b }

/-- The settings built up from the defaults by some steps. -/
def build (steps : List WatcherSetting) : WatcherSettings := steps.foldl set {}

end WatcherSettings

namespace Settings

/-- The first pattern that cannot be compiled, and what is wrong with it. -/
def firstBadPattern? (patterns : List String) : Option (String × Glob.PatternError) :=
  patterns.findSome? fun p =>
    match Glob.compile p with
    | .ok _ => none
    | .error e => some (p, e)

/-- Settings are usable if there is a window and every pattern can be compiled. -/
def validate (s : Settings) : Except Failure Unit :=
  if s.watcher.debounceMs = 0 then
    .error (.config "watcher.debounce_ms must be greater than 0")
  else match firstBadPattern? s.watcher.ignorePatterns with
    | some (p, e) => .error (.config ("Invalid ignore pattern '" ++ p ++ "': " ++ e.message))
    | none => .ok ()

end Settings

end WorkspaceWatch
