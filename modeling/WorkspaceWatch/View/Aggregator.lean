import WorkspaceWatch.Settings.Basic
import WorkspaceWatch.View.Acquisition

/-!
# Queries across all views

A query is run on snapshots of all active views, those that produce none being left out and counted.
Whatever happens, be it that the query fails or panics, that a view panics, or that the caller loses
patience, every snapshot that was acquired is released before the call is over, in view order if
every view has answered. Counters change only then.

* `Aggregator.runAcross` runs one query on all snapshots together.
* `Aggregator.runPerView` runs a query on each snapshot by itself and collects what succeeds. It
  fails only if every one of the queries does, as the first of them.
-/

namespace WorkspaceWatch

/-- What comes of a query. -/
inductive Answer (β : Type) where
  | value (b : β)
  | failure (f : Failure)
  | panic (message : String)
  deriving DecidableEq, Repr

/-- How a call ends. -/
inductive Outcome (β : Type) where
  | returned (result : Except Failure β)
  | panicked (message : String)
  /-- The caller has lost patience. -/
  | dropped

/-- The outcome that an answer makes. -/
def Answer.outcome {β : Type} : Answer β → Outcome β
  | .value b => .returned (.ok b)
  | .failure f => .returned (.error f)
  | .panic message => .panicked message

/-- A call that is over: how it ended, what happened in it, and the counters afterwards. -/
structure Call (β : Type) where
  outcome : Outcome β
  events : List ViewEvent
  tally : Tally

/-- What runs queries: its settings and the counters. -/
structure Aggregator where
  settings : AggregatorSettings := {}
  tally : Tally := {}
  deriving DecidableEq, Repr

namespace Aggregator

variable {α β : Type}

/-- Releases guards in order. -/
def releaseAll : List (Nat × Guard α) → Tally → List ViewEvent × Tally
  | [], t => ([], t)
  | (position, g) :: rest, t =>
    if g.release.2 then
      let (events, t) := releaseAll rest (if g.isTracked then t.record .snapshotReleased else t)
      (.released position :: events, t)
    else releaseAll rest t

/-- What is counted when every view has answered. -/
def count (held : List (Nat × Guard α)) (views : Nat) (t : Tally) : Tally :=
  let t := (List.replicate (views - held.length) Occurrence.viewSkipped).foldl Tally.record t
  (List.replicate held.length Occurrence.snapshotAcquired).foldl Tally.record t

/-- What comes of a call once so many views have been asked: if all have answered, `body` is run on
the snapshots. Whatever is held is released in the end. -/
def conclude (a : Aggregator) (views : Nat) (g : Gathering α)
    (body : List (Nat × Guard α) → Outcome β × List ViewEvent) : Call β :=
  match g.ending with
  | .panicked message =>
    let (released, t) := releaseAll g.held a.tally
    ⟨.panicked message, g.events ++ released, t⟩
  | .dropped =>
    let (released, t) := releaseAll g.held a.tally
    ⟨.dropped, g.events ++ released, t⟩
  | .complete =>
    let held := g.held.map fun h => (h.1, h.2.track)
    let t := count held views a.tally
    if held.isEmpty then
      ⟨.returned (.error (.noUsableSnapshots views)), g.events, t⟩
    else
      let (outcome, queried) := body held
      let (released, t) := releaseAll held t
      ⟨outcome, g.events ++ queried ++ released, t⟩

/-- Runs `body` on the snapshots of all views, for a caller who waits for so many polls. -/
def run (a : Aggregator) (patience : Nat) (views : List (View α))
    (body : List (Nat × Guard α) → Outcome β × List ViewEvent) : Call β :=
  match patience with
  | 0 => ⟨.dropped, [], a.tally⟩
  | suspensions + 1 =>
    if views.isEmpty then ⟨.returned (.error .noActiveViews), [], a.tally⟩
    else
      a.conclude views.length
        (Gathering.gather a.settings.concurrentAcquisition suspensions views) body

/-- Runs a query on held snapshots, all of them together. -/
def askTogether (query : List (Guard α) → Answer β) (held : List (Nat × Guard α)) :
    Outcome β × List ViewEvent :=
  ((query (held.map Prod.snd)).outcome, [.queried (held.map Prod.fst)])

/-- Runs a query on all snapshots together. -/
def runAcross (a : Aggregator) (patience : Nat) (views : List (View α))
    (query : List (Guard α) → Answer β) : Call β :=
  a.run patience views (askTogether query)

/-- Runs a query on each snapshot by itself, up to the first panic: what was run, and the values and
failures in order. -/
def askEach (query : Guard α → Answer β) :
    List (Nat × Guard α) → List ViewEvent × Except String (List β × List Failure)
  | [] => ([], .ok ([], []))
  | (position, g) :: rest =>
    match query g with
    | .panic message => ([.queried [position]], .error message)
    | .value b =>
      let (events, r) := askEach query rest
      (.queried [position] :: events, r.map fun r => (b :: r.1, r.2))
    | .failure f =>
      let (events, r) := askEach query rest
      (.queried [position] :: events, r.map fun r => (r.1, f :: r.2))

/-- Runs a query on each held snapshot by itself and collects what succeeds. -/
def askApart (query : Guard α → Answer β) (held : List (Nat × Guard α)) :
    Outcome (List β) × List ViewEvent :=
  match askEach query held with
  | (events, .error message) => (.panicked message, events)
  | (events, .ok ([], f :: _)) => (.returned (.error f), events)
  | (events, .ok (values, _)) => (.returned (.ok values), events)

/-- Runs a query on each snapshot by itself. -/
def runPerView (a : Aggregator) (patience : Nat) (views : List (View α))
    (query : Guard α → Answer β) : Call (List β) :=
  a.run patience views (askApart query)

/-- The aggregator as it is shown to a developer. -/
def description (a : Aggregator) : String :=
  "SnapshotAggregator \x7b config: AggregatorConfig \x7b concurrent_acquisition: " ++
    toString a.settings.concurrentAcquisition ++ " \x7d \x7d"

end Aggregator

end WorkspaceWatch
