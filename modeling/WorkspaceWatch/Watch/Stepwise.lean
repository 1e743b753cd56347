import WorkspaceWatch.Watch.Loop

/-!
# The loop at work

`Loop.turn` handles a notice at one stroke. But a walk takes its time, and the file system does not
stand still meanwhile: entries may appear after a directory was watched and before it is read, or
after it was read and before what it lists is looked at. Here the handling of a notice is taken
apart into steps. With each of them the file system is looked at no more than once, and every step
may find another one.

* `Coverage.Walk.Stage` is how far a walk has come. The directories that wait are on a stack.
* `Handling` is how far the handling of a notice has come.
* `Work` is the loop and the notice that it has in hand. Whatever comes from outside may come
  between two steps.
-/

namespace WorkspaceWatch

namespace Coverage

/-- How far a walk has come. The directories `waiting` are still to be turned to, beginning with the
first one. -/
inductive Walk.Stage where
  /-- It turns to the next directory. -/
  | turning (w : Walk) (waiting : List Path)
  /-- It has registered a directory, which it is going to read. -/
  | reading (w : Walk) (waiting : List Path) (dir : Path)
  /-- It has read a directory and is going to look at the entries with these names. -/
  | examining (w : Walk) (waiting : List Path) (dir : Path) (names : List Name)

namespace Walk.Stage

/-- What the walk has come to. -/
def walk : Stage → Walk
  | turning w _ => w
  | reading w _ _ => w
  | examining w _ _ _ => w

/-- The directories that wait. -/
def waiting : Stage → List Path
  | turning _ waiting => waiting
  | reading _ waiting _ => waiting
  | examining _ waiting _ _ => waiting

/-- One step of a walk, which is over when no directory waits or one is refused. -/
def step (fs : FileSystem) (scope : Scope) (policy : Backend.Policy) (strict : Bool) :
    Stage → Stage ⊕ (Walk × Option Refusal)
  | turning w [] => .inr (w, none)
  | turning w (dir :: waiting) =>
    match w.approach fs scope policy dir with
    | none => .inl (turning w waiting)
    | some (w, some refusal) => .inr (w, some refusal)
    | some (w, none) => .inl (reading w waiting dir)
  | reading w waiting dir =>
    match fs.list dir with
    | .error e => if strict then .inr (w, some ⟨dir, e.message⟩) else .inl (turning w waiting)
    | .ok (_, names) => .inl (examining w waiting dir names)
  | examining w waiting _ [] => .inl (turning w waiting)
  | examining w waiting dir (name :: names) =>
    let p := dir.child name
    if scope.ignore.ignores p then .inl (examining w waiting dir names)
    else
      let waiting := if scope.enters fs p then p :: waiting else waiting
      .inl (examining { w with found := w.found ++ [p] } waiting dir names)

end Walk.Stage

end Coverage

/-- A notice whose handling has begun. -/
structure Handling where
  notice : Notice
  /-- When it has begun. -/
  time : Nat
  /-- The changes that are still to be absorbed. -/
  changes : List Change
  /-- The change that tells of a new directory, and the walk through this directory. -/
  errand? : Option (Change × Coverage.Walk.Stage) := none
  /-- What was queued so far. -/
  queued : List Change := []

namespace Handling

open Coverage (Walk)

variable (plan : Plan) (fs : FileSystem) (now : Nat)

/-- The coverage as it is now. As long as a walk goes on, it is what the walk has come to. -/
def coverage (i : Intake) (h : Handling) : Coverage :=
  match h.errand? with
  | some (_, stage) => stage.walk.coverage
  | none => i.coverage

/-- Begins with a notice, which is read as changes. -/
def begin (i : Intake) (notice : Notice) : Intake × Handling :=
  match notice with
  | .fault _ =>
    ({ i with coverage := i.coverage.record .observationError },
      { notice, time := now, changes := [] })
  | .signal s =>
    (if s.rescan then i.noteLoss plan now else i, { notice, time := now, changes := s.changes fs })

/-- Queues changes after the coverage was brought up to date. -/
def settle (i : Intake) (h : Handling) (c : Coverage) (queued : List Change) : Intake × Handling :=
  ({ i with coverage := c, burst := i.burst.pushAll queued now },
    { h with errand? := none, queued := h.queued ++ queued })

/-- One step of the handling of a notice; none when nothing is left to do. -/
def step (i : Intake) (h : Handling) : Option (Intake × Handling) :=
  match h.errand? with
  | some (change, stage) =>
    match stage.step fs plan.scope plan.policy false with
    | .inl stage => some (i, { h with errand? := some (change, stage) })
    | .inr (w, refusal?) =>
      some (settle now i h (w.account refusal?) (change :: w.found.map .created))
  | none =>
    match h.changes with
    | [] => none
    | change :: changes =>
      let h := { h with changes }
      if plan.scope.ignore.ignores change.path = false ∧ change.kind = .created ∧
          plan.scope.enters fs change.path then
        let w : Walk := { coverage := i.coverage.record .eventObserved }
        some (i, { h with errand? := some (change, .turning w [change.path]) })
      else
        let (c, queued) := Intake.absorb plan fs i.coverage change
        some (settle now i h c queued)

end Handling

/-- The loop at work: with the notice that it handles, if it handles one. -/
structure Work where
  loop : Loop
  handling? : Option Handling := none

namespace Work

/-- The coverage as it is now. -/
def coverage (w : Work) : Coverage :=
  match w.handling? with
  | some h => h.coverage w.loop.intake
  | none => w.loop.intake.coverage

/-- One turn: a step with the notice in hand, the beginning with the next one, or a turn of the loop
that has to do with no notice. -/
def turn (plan : Plan) (fs : FileSystem) (w : Work) : Option (Work × List Record) :=
  match w.handling? with
  | some h =>
    match h.step plan fs w.loop.clock w.loop.intake with
    | some (intake, h) => some ({ loop := { w.loop with intake }, handling? := some h }, [])
    | none => some ({ loop := w.loop }, [.handled h.notice h.queued h.time])
  | none =>
    match w.loop.phase, w.loop.cancelled, w.loop.queue with
    | .waiting, false, notice :: queue =>
      let (intake, h) := Handling.begin plan fs w.loop.clock w.loop.intake notice
      some ({ loop := { w.loop with intake, queue }, handling? := some h }, [])
    | _, _, _ => (w.loop.turn plan fs).map fun (loop, records) => ({ loop }, records)

/-- Takes in what comes from outside. -/
def perform (plan : Plan) (w : Work) (stimulus : Stimulus) : Work × List Record :=
  let (loop, records) := w.loop.perform plan stimulus
  ({ w with loop }, records)

end Work

end WorkspaceWatch
