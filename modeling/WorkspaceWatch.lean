import WorkspaceWatch.Burst
import WorkspaceWatch.Change.Basic
import WorkspaceWatch.Change.Json
import WorkspaceWatch.Command.Arguments
import WorkspaceWatch.Command.Invocation
import WorkspaceWatch.Command.Run
import WorkspaceWatch.Command.Session
import WorkspaceWatch.Command.Trouble
import WorkspaceWatch.Failure
import WorkspaceWatch.FileSystem.Basic
import WorkspaceWatch.FileSystem.Canonical
import WorkspaceWatch.FileSystem.Edit
import WorkspaceWatch.FileSystem.IoFault
import WorkspaceWatch.FileSystem.Operations
import WorkspaceWatch.FileSystem.Resolve
import WorkspaceWatch.Glob.Matching
import WorkspaceWatch.Glob.Pattern
import WorkspaceWatch.Ignore
import WorkspaceWatch.Json.Decode
import WorkspaceWatch.Json.Numeral
import WorkspaceWatch.Json.Reader
import WorkspaceWatch.Json.Value
import WorkspaceWatch.Layer.Key
import WorkspaceWatch.Layer.Source
import WorkspaceWatch.Layer.Value
import WorkspaceWatch.Main
import WorkspaceWatch.Number.Binary64
import WorkspaceWatch.Number.Spelling
import WorkspaceWatch.Path.Basic
import WorkspaceWatch.Report
import WorkspaceWatch.Settings.Basic
import WorkspaceWatch.Settings.Format
import WorkspaceWatch.Settings.Json
import WorkspaceWatch.Settings.Store
import WorkspaceWatch.Settings.Toml
import WorkspaceWatch.Tally
import WorkspaceWatch.Text.Escaped
import WorkspaceWatch.Text.Invisible
import WorkspaceWatch.Text.Lower
import WorkspaceWatch.Text.Utf8
import WorkspaceWatch.Toml.Document
import WorkspaceWatch.Toml.Quoted
import WorkspaceWatch.Toml.Reader
import WorkspaceWatch.Toml.Scalar
import WorkspaceWatch.Toml.Value
import WorkspaceWatch.View.Acquisition
import WorkspaceWatch.View.Aggregator
import WorkspaceWatch.View.Guard
import WorkspaceWatch.View.Heap
import WorkspaceWatch.View.Lineup
import WorkspaceWatch.Watch.Coverage
import WorkspaceWatch.Watch.Intake
import WorkspaceWatch.Watch.Loop
import WorkspaceWatch.Watch.Sighting
import WorkspaceWatch.Watch.Signal
import WorkspaceWatch.Watch.Simulation
import WorkspaceWatch.Watch.Stepwise
import WorkspaceWatch.Watch.Watcher
import WorkspaceWatch.Proofs.Loop.Run
import WorkspaceWatch.Proofs.Loop.Conservation
import WorkspaceWatch.Proofs.Loop.Deadline
import WorkspaceWatch.Proofs.View.Schedule
import WorkspaceWatch.Proofs.View.Release
import WorkspaceWatch.Proofs.View.Agreement
import WorkspaceWatch.Proofs.FileSystem.Descent
import WorkspaceWatch.Proofs.Coverage.Walk
import WorkspaceWatch.Proofs.Coverage.Tree
import WorkspaceWatch.Proofs.Coverage.Alteration
import WorkspaceWatch.Proofs.Coverage.Exact
import WorkspaceWatch.Proofs.Loop.Stepwise
import WorkspaceWatch.Proofs.Loop.Ahead
import WorkspaceWatch.Proofs.Loop.Discovery
import WorkspaceWatch.Proofs.Loop.Quiet
import WorkspaceWatch.Proofs.Coverage.Files
import WorkspaceWatch.Proofs.Loop.Resync
import WorkspaceWatch.Proofs.Loop.Reconvergence
import WorkspaceWatch.Proofs.Loop.Counting
import WorkspaceWatch.Proofs.Coverage.Bookkeeping
import WorkspaceWatch.Proofs.Coverage.Rollback
import WorkspaceWatch.Proofs.Coverage.Extent
import WorkspaceWatch.Proofs.FileSystem.Canonical
import WorkspaceWatch.Proofs.Coverage.Alias
import WorkspaceWatch.Proofs.Loop.Containment
import WorkspaceWatch.Proofs.Coverage.Counters
import WorkspaceWatch.Proofs.Loop.Noise
import WorkspaceWatch.Proofs.Json.Roundtrip
import WorkspaceWatch.Proofs.Loop.Reporting
import WorkspaceWatch.Proofs.Settings.Loading
import WorkspaceWatch.Proofs.Settings.Saving
import WorkspaceWatch.Proofs.FileSystem.Trail
import WorkspaceWatch.Proofs.Coverage.Following
import WorkspaceWatch.Proofs.Coverage.Shadowing
import WorkspaceWatch.Proofs.Coverage.Tour
import WorkspaceWatch.Proofs.Coverage.Interruption
import WorkspaceWatch.Proofs.Loop.Appearance
import WorkspaceWatch.Proofs.Coverage.Undoing
import WorkspaceWatch.Proofs.View.Returns
import WorkspaceWatch.Proofs.Command.Output
import WorkspaceWatch.Proofs.FileSystem.Arrival
import WorkspaceWatch.Proofs.FileSystem.Renaming
import WorkspaceWatch.Proofs.Coverage.Repetition
import WorkspaceWatch.Proofs.Loop.Timing
import WorkspaceWatch.Proofs.Loop.Reading
