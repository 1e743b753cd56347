import WorkspaceWatch.Watch.Loop

/-!
# Simulating a watch

The event loop together with a notifier that follows a script: each entry says whether the notifier
accepts one batch and whether it answers at once or only when it is released. Releases that nothing
waits for are kept for later. After every stimulus the loop runs until it has to wait.
-/

namespace WorkspaceWatch

/-- How the notifier treats one batch. -/
structure Reply where
  accepts : Bool := true
  /-- It answers only after a release. -/
  hangs : Bool := false
  deriving DecidableEq, Repr

/-- A loop, its notifier and the file system. -/
structure Simulation where
  plan : Plan
  loop : Loop
  fs : FileSystem
  /-- The replies to the batches to come; after the last, every batch is accepted at once. -/
  script : List Reply
  /-- The reply to the batch that the notifier has. -/
  current : Reply := {}
  /-- Releases that nothing has waited for. -/
  releases : Nat := 0

namespace Simulation

/-- Passes a stimulus to the loop. -/
def perform (s : Simulation) (stimulus : Stimulus) : Simulation × List Record :=
  let (loop, records) := s.loop.perform s.plan stimulus
  ({ s with loop }, records)

/-- The notifier answers, if it has a batch and need not wait for a release. -/
def reply (s : Simulation) : Simulation × List Record :=
  match s.loop.phase with
  | .delivering _ =>
    if s.loop.cancelled then (s, [])
    else if !s.current.hangs then s.perform (.answer s.current.accepts)
    else if 0 < s.releases then
      { s with releases := s.releases - 1 }.perform (.answer s.current.accepts)
    else (s, [])
  | _ => (s, [])

/-- One turn of the loop, with the notifier's answer if there is one. -/
def turn (s : Simulation) : Option (Simulation × List Record) :=
  match s.loop.turn s.plan s.fs with
  | none => none
  | some (loop, records) =>
    let s := { s with loop }
    match loop.phase with
    | .delivering _ =>
      let s := { s with current := s.script.headD {}, script := s.script.tail }
      let (s, records') := s.reply
      some (s, records ++ records')
    | _ => some (s, records)

/-- Runs the loop until it has to wait, for at most so many turns. -/
def settleWithin : (turns : Nat) → Simulation → Simulation × List Record
  | 0, s => (s, [])
  | turns + 1, s =>
    match s.turn with
    | none => (s, [])
    | some (s, records) =>
      let (s, records') := settleWithin turns s
      (s, records ++ records')

/-- Runs the loop until it has to wait: each notice takes a turn, and then there may be one flush
and the end. -/
def settle (s : Simulation) : Simulation × List Record :=
  settleWithin (s.loop.queue.length + 3) s

/-- Passes stimuli to the loop and lets it run until it has to wait. -/
def submit (s : Simulation) (stimuli : List Stimulus) : Simulation × List Record :=
  let (s, records) := stimuli.foldl
    (fun (s, records) stimulus => let (s, more) := s.perform stimulus; (s, records ++ more))
    (s, [])
  let (s, records') := s.settle
  (s, records ++ records')

/-- Releases the notifier once. -/
def release (s : Simulation) : Simulation × List Record :=
  let (s, records) := { s with releases := s.releases + 1 }.reply
  let (s, records') := s.settle
  (s, records ++ records')

/-- The batches that were handed over. -/
def batches (records : List Record) : List Batch :=
  records.filterMap fun
    | .handed handover => some handover.batch
    | _ => none

end Simulation

end WorkspaceWatch
