import WorkspaceWatch.Watch.Intake

/-!
# The event loop

The loop is one state and what it does next is a function of that state. Notices wait in a queue.
When the loop has to choose, cancellation comes first, then the queue, then the deadline of the
burst; so a batch is handed over only while no notice is waiting. While the notifier has a batch the
loop does nothing but wait for its answer or for cancellation.

`Loop.turn` is one turn of the loop, `Loop.perform` what comes from outside. Each says what it did
in a list of records, so that a whole run can be read off from them.
-/

namespace WorkspaceWatch

/-- What the loop is doing. -/
inductive Phase where
  | waiting
  /-- The notifier has this and has not answered. -/
  | delivering (handover : Handover)
  | stopped
  deriving DecidableEq, Repr

/-- The state of the loop. -/
structure Loop where
  intake : Intake
  /-- The notices that have arrived and were not handled yet. -/
  queue : List Notice := []
  /-- No more notices will arrive. -/
  closed : Bool := false
  cancelled : Bool := false
  phase : Phase := .waiting
  /-- The time, in milliseconds. -/
  clock : Nat := 0
  deriving DecidableEq, Repr

/-- Something the loop did. -/
inductive Record where
  /-- It handled a notice at that time, and queued these changes. -/
  | handled (notice : Notice) (queued : List Change) (time : Nat)
  /-- It handed a batch to the notifier. -/
  | handed (handover : Handover)
  /-- The notifier answered. -/
  | concluded (handover : Handover) (accepted : Bool)
  /-- It stopped while the notifier had a batch. -/
  | abandoned (handover : Handover)
  /-- It stopped and dropped what was pending. -/
  | dropped (changes : List Change)
  deriving DecidableEq, Repr

/-- What comes from outside. -/
inductive Stimulus where
  | arrive (notice : Notice)
  /-- No more notices will arrive. -/
  | close
  | cancel
  | advance (milliseconds : Nat)
  /-- The notifier answers. -/
  | answer (accepted : Bool)
  deriving DecidableEq, Repr

namespace Loop

/-- The loop at its start. -/
def start (plan : Plan) (coverage : Coverage) : Loop :=
  { intake := { coverage, burst := .empty plan.window } }

/-- The loop is running. -/
def isRunning (l : Loop) : Bool := l.phase ≠ .stopped

/-- Stops the loop and drops what is pending. -/
def stop (l : Loop) : Loop × List Record :=
  ({ l with
     phase := .stopped
     queue := []
     intake := { l.intake with burst := l.intake.burst.cleared } },
   [.dropped l.intake.burst.pending])

/-- One turn of the loop; none when there is nothing to do but wait. -/
def turn (plan : Plan) (fs : FileSystem) (l : Loop) : Option (Loop × List Record) :=
  match l.phase with
  | .stopped => none
  | .delivering handover =>
    if l.cancelled then
      let (l, records) := l.stop
      some (l, .abandoned handover :: records)
    else none
  | .waiting =>
    if l.cancelled then some l.stop
    else match l.queue with
      | notice :: queue =>
        let (intake, queued) := l.intake.handle plan fs l.clock notice
        some ({ l with intake, queue }, [.handled notice queued l.clock])
      | [] =>
        if l.closed then some l.stop
        else if l.intake.burst.isDue l.clock then
          match l.intake.flush plan fs l.clock with
          | (intake, none) => some ({ l with intake }, [])
          | (intake, some handover) =>
            some ({ l with intake, phase := .delivering handover }, [.handed handover])
        else none

/-- Takes in what comes from outside. Notices that arrive after the end are lost, and so is an
answer that nothing waits for, also one that comes after cancellation. -/
def perform (plan : Plan) (l : Loop) : Stimulus → Loop × List Record
  | .arrive notice =>
    if l.closed ∨ l.cancelled then (l, []) else ({ l with queue := l.queue ++ [notice] }, [])
  | .close => ({ l with closed := true }, [])
  | .cancel => ({ l with cancelled := true }, [])
  | .advance milliseconds => ({ l with clock := l.clock + milliseconds }, [])
  | .answer accepted =>
    match l.phase with
    | .delivering handover =>
      if l.cancelled then (l, [])
      else
        ({ l with intake := l.intake.conclude plan accepted, phase := .waiting },
         [.concluded handover accepted])
    | _ => (l, [])

end Loop

end WorkspaceWatch
