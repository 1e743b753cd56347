import WorkspaceWatch.Settings.Basic

/-!
# Settings in a format

Settings are a record of two records. A `Format` says what counts as a record, a number, a flag or a
list of texts among the values of some format, and `Format.settings?` reads settings from one value.
A setting that is not given has its default, one that is given with a value of the wrong kind fails,
and what is given beside the settings does not matter.
-/

namespace WorkspaceWatch

/-- What the values of a format can be taken for; `none` if a value cannot be taken so. -/
structure Format (α : Type) where
  /-- A record with these fields in order: the value of each that is given. -/
  record? : (fields : List String) → α → Option (String → Option α)
  /-- A natural number below `2 ^ 64`. -/
  number? : α → Option UInt64
  flag? : α → Option Bool
  texts? : α → Option (List String)

/-- Reads a value if it is given, or else takes the default. -/
def orDefault {α β : Type} (read? : α → Option β) (default : β) : Option α → Option β
  | none => some default
  | some v => read? v

namespace WatcherSettings

/-- The names of the settings, in order. -/
def names : List String :=
  ["debounce_ms", "ignore_patterns", "follow_symlinks", "resync_on_notify_failure"]

end WatcherSettings

namespace AggregatorSettings

/-- The names of the settings, in order. -/
def names : List String := ["concurrent_acquisition"]

end AggregatorSettings

namespace Settings

/-- The names of the two records, in order. -/
def names : List String := ["watcher", "aggregator"]

end Settings

namespace Format

variable {α : Type}

/-- The settings of a watcher. -/
def watcher? (f : Format α) (v : α) : Option WatcherSettings := do
  let standard : WatcherSettings := {}
  let given ← f.record? WatcherSettings.names v
  let debounceMs ← orDefault f.number? standard.debounceMs (given "debounce_ms")
  let ignorePatterns ← orDefault f.texts? standard.ignorePatterns (given "ignore_patterns")
  let followSymlinks ← orDefault f.flag? standard.followSymlinks (given "follow_symlinks")
  let resyncOnNotifyFailure ←
    orDefault f.flag? standard.resyncOnNotifyFailure (given "resync_on_notify_failure")
  return { debounceMs, ignorePatterns, followSymlinks, resyncOnNotifyFailure }

/-- The settings of an aggregator. -/
def aggregator? (f : Format α) (v : α) : Option AggregatorSettings := do
  let standard : AggregatorSettings := {}
  let given ← f.record? AggregatorSettings.names v
  let concurrentAcquisition ←
    orDefault f.flag? standard.concurrentAcquisition (given "concurrent_acquisition")
  return { concurrentAcquisition }

/-- All settings. -/
def settings? (f : Format α) (v : α) : Option Settings := do
  let given ← f.record? Settings.names v
  let watcher ← orDefault f.watcher? {} (given "watcher")
  let aggregator ← orDefault f.aggregator? {} (given "aggregator")
  return { watcher, aggregator }

end Format

end WorkspaceWatch
