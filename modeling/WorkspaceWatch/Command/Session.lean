import WorkspaceWatch.Report
import WorkspaceWatch.Watch.Sighting
import WorkspaceWatch.Watch.Watcher

/-!
# Watch sessions

A session is a watcher whose notifier reports every batch on the standard output. A batch is
rejected if it cannot be reported. Between two stimuli the loop runs until it has to wait.
-/

namespace WorkspaceWatch

/-- A watcher that reports its batches. -/
structure Session where
  watcher : Watcher
  format : ReportFormat
  fs : FileSystem
  /-- What was written so far. -/
  output : List Char := []

namespace Session

/-- Starts to watch the tree at `root`. -/
def start (fs : FileSystem) (settings : WatcherSettings) (root : Path) (format : ReportFormat) :
    Except Failure Session :=
  (Watcher.start fs Backend.acceptAll settings root {} true).map fun watcher =>
    { watcher, format, fs }

/-- The session with its loop in another state. -/
def withLoop (s : Session) (loop : Loop) : Session := { s with watcher.loop := loop }

/-- Passes a stimulus to the loop. -/
def perform (s : Session) (stimulus : Stimulus) : Session :=
  s.withLoop (s.watcher.loop.perform s.watcher.plan stimulus).1

/-- Reports a batch. -/
def deliver (s : Session) (b : Batch) : Session :=
  match s.format.report b with
  | .ok line => { s with output := s.output ++ line }.perform (.answer true)
  | .error _ => s.perform (.answer false)

/-- One turn of the loop, with a report if it hands over a batch. -/
def turn (s : Session) : Option Session :=
  (s.watcher.loop.turn s.watcher.plan s.fs).map fun (loop, _) =>
    match loop.phase with
    | .delivering handover => (s.withLoop loop).deliver handover.batch
    | _ => s.withLoop loop

/-- Runs the loop until it has to wait, for at most so many turns. -/
def settleWithin : (turns : Nat) → Session → Session
  | 0, s => s
  | turns + 1, s =>
    match s.turn with
    | none => s
    | some s => settleWithin turns s

/-- Passes stimuli to the loop and lets it run until it has to wait. -/
def submit (s : Session) (stimuli : List Stimulus) : Session :=
  let s := stimuli.foldl perform s
  settleWithin (s.watcher.loop.queue.length + 3) s

/-- Makes a change to the files, and lets the loop know what the operating system says about it. -/
def edit (s : Session) (e : Edit) : Session :=
  let signals := e.sightings s.fs s.watcher.coverage.backend
  { s with fs := s.fs.edit [e] }.submit (signals.map fun signal => .arrive (.signal signal))

/-- Lets so much time pass that what is pending is reported. -/
def rest (s : Session) : Session := s.submit [.advance s.watcher.plan.window]

/-- Stops watching: what was counted. -/
def close (s : Session) : Tally := s.watcher.close.tally

/-- What is said at the end. -/
def summary (t : Tally) : String :=
  "Delivered " ++ toString t.batchesDelivered ++ " batches (" ++ toString t.eventsObserved ++
    " events observed, " ++ toString t.notifyFailures ++ " notify failures, " ++
    toString t.observationErrors ++ " watch errors)"

end Session

end WorkspaceWatch
