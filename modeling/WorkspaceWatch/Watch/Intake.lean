import WorkspaceWatch.Burst
import WorkspaceWatch.Watch.Coverage
import WorkspaceWatch.Watch.Signal

/-!
# Taking in signals

What happens to a signal: it is read as changes, ignored changes are counted and dropped, and the
others are queued in the burst. A directory that was created is registered *before* its creation is
queued, and what is in it already is queued after it as created; a directory that was deleted is
forgotten with all below it.

When the burst closes it is flushed into a **handover**: the queued changes and, if the watch is
dirty, a report of every file in the registered directories. A watch becomes dirty, provided that
it is meant to resynchronise, when a batch is rejected or signals were lost. A flush makes it clean.
-/

namespace WorkspaceWatch

/-- What a watch is set up with. -/
structure Plan where
  scope : Scope := {}
  policy : Backend.Policy := Backend.acceptAll
  /-- How long it has to be quiet before a batch is delivered. -/
  window : Nat
  /-- After a loss, every file is reported again. -/
  resync : Bool := false

/-- What a watch keeps between two signals. -/
structure Intake where
  coverage : Coverage
  burst : Burst
  /-- Something was lost, and every file is to be reported again. -/
  dirty : Bool := false
  deriving DecidableEq, Repr

/-- What is handed to the notifier in one call. -/
structure Handover where
  /-- The changes that were queued. -/
  queued : List Change
  /-- The files that are reported again. -/
  reported : List Change
  /-- When it was handed over. -/
  time : Nat
  deriving DecidableEq, Repr

/-- The batch of a handover. -/
def Handover.batch (h : Handover) : Batch := .ofDisk (h.queued ++ h.reported)

namespace Intake

variable (plan : Plan) (fs : FileSystem)

/-- What is counted, registered or forgotten for one change, and what is queued for it. -/
def absorb (c : Coverage) (change : Change) : Coverage × List Change :=
  if plan.scope.ignore.ignores change.path then (c.record .eventIgnored, [])
  else
    let c := c.record .eventObserved
    match change.kind with
    | .created =>
      if plan.scope.enters fs change.path then
        let (c, found) := c.registerCreated fs plan.scope plan.policy change.path
        (c, change :: found.map .created)
      else (c, [change])
    | .deleted =>
      if c.isRegistered change.path then ((c.unregister change.path).1, [change])
      else (c, [change])
    | .changed => (c, [change])

/-- Absorbs changes in order. -/
def absorbAll (c : Coverage) : List Change → Coverage × List Change
  | [] => (c, [])
  | change :: rest =>
    let (c, queued) := absorb plan fs c change
    let (c, queued') := absorbAll c rest
    (c, queued ++ queued')

/-- Notes that signals were lost at the time `now`. -/
def noteLoss (now : Nat) (i : Intake) : Intake :=
  let i := { i with coverage := i.coverage.record .observationError }
  if plan.resync then { i with dirty := true, burst := i.burst.arm now } else i

/-- Takes in a notice at the time `now`. The answer is what was queued. -/
def handle (now : Nat) (i : Intake) : Notice → Intake × List Change
  | .fault _ => ({ i with coverage := i.coverage.record .observationError }, [])
  | .signal s =>
    let i := if s.rescan then noteLoss plan now i else i
    let (c, queued) := absorbAll plan fs i.coverage (s.changes fs)
    ({ i with coverage := c, burst := i.burst.pushAll queued now }, queued)

/-- Empties the burst at the time `now`. There is a handover unless there is nothing to hand
over. -/
def flush (now : Nat) (i : Intake) : Intake × Option Handover :=
  let queued := i.burst.pending
  let reported :=
    if i.dirty then (i.coverage.files fs plan.scope).map .changed else []
  let i := { i with burst := i.burst.cleared, dirty := false }
  if queued ++ reported = [] then (i, none) else (i, some ⟨queued, reported, now⟩)

/-- Takes note of the notifier's answer. -/
def conclude (i : Intake) (accepted : Bool) : Intake :=
  if accepted then { i with coverage := i.coverage.record .batchDelivered }
  else { i with coverage := i.coverage.record .notifyFailure, dirty := plan.resync }

end Intake

end WorkspaceWatch
