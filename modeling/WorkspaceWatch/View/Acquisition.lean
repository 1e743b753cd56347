import WorkspaceWatch.Failure
import WorkspaceWatch.View.Guard
import WorkspaceWatch.View.Lineup

/-!
# Acquiring snapshots

Every view is asked for a snapshot. A view answers after some number of suspensions: with a
snapshot, with a failure, or by panicking; it may also never answer. Views are asked one after the
other or all at once, and the one who waits may lose patience at any suspension.

Views that are asked all at once have their turns in rounds. Where there are few of them, a round
ends in one suspension. A **crowd** is served in smaller portions: there is a pause whenever two
views have suspended.

`schedule` lists the views that answer in time, in the order in which they do. The first panic ends
everything. `gather` says what has been acquired then and how it ended.
-/

namespace WorkspaceWatch

/-- What a view answers when it is asked for a snapshot. -/
inductive Acquisition (α : Type) where
  | snapshot (a : α)
  | failure (f : Failure)
  | panic (message : String)
  | never
  deriving DecidableEq, Repr

/-- A view of a workspace. -/
structure View (α : Type) where
  id : String
  /-- How often it suspends before it answers. -/
  delay : Nat := 0
  answer : Acquisition α
  deriving DecidableEq, Repr

namespace View

variable {α : Type}

/-- The view answers after at most so many suspensions. -/
def answersWithin (v : View α) (suspensions : Nat) : Bool :=
  (match v.answer with
    | .never => false
    | _ => true) && v.delay ≤ suspensions

/-- The message with which the view panics, if it does. -/
def panic? (v : View α) : Option String :=
  match v.answer with
  | .panic message => some message
  | _ => none

/-- The guard that the view answers with, if it does. -/
def guard? (v : View α) : Option (Guard α) :=
  match v.answer with
  | .snapshot a => some { view := v.id, snapshot := a }
  | _ => none

end View

/-- Something that happens to snapshots. Views are known by their position. -/
inductive ViewEvent where
  | acquired (position : Nat)
  /-- A query is run on snapshots of these views. -/
  | queried (positions : List Nat)
  | released (position : Nat)
  deriving DecidableEq, Repr

/-- How the acquisition of snapshots ends. -/
inductive Ending where
  /-- Every view has answered. -/
  | complete
  | panicked (message : String)
  /-- The one who waited has lost patience. -/
  | dropped
  deriving DecidableEq, Repr

/-- The acquisition of snapshots from all views. -/
structure Gathering (α : Type) where
  ending : Ending
  /-- The acquisitions, in the order in which they happened. -/
  events : List ViewEvent
  /-- The snapshots that are held, with their views, in the order in which they are released. If
  every view has answered, that is view order. -/
  held : List (Nat × Guard α)

namespace Gathering

variable {α : Type}

/-- The views with their positions. -/
def positioned (views : List (View α)) : List (Nat × View α) :=
  (List.range views.length).zip views

/-- The views that answer within so many suspensions when they are asked one after the other, each
after the one before has answered. -/
def inTurn : (suspensions : Nat) → List (Nat × View α) → List (Nat × View α)
  | _, [] => []
  | n, v :: vs => if v.2.answersWithin n then v :: inTurn (n - v.2.delay) vs else []

/-- The views that answer within so many suspensions when all are asked at once. Those that suspend
equally often answer in view order. -/
def atOnce (suspensions : Nat) (views : List (Nat × View α)) : List (Nat × View α) :=
  (List.range (suspensions + 1)).flatMap fun n =>
    views.filter fun v => v.2.answersWithin n && v.2.delay = n

/-- More views than this are a crowd. -/
def crowdSize : Nat := 30

/-- The views are asked all at once and are a crowd. -/
def isCrowd (concurrent : Bool) (views : List (Nat × View α)) : Bool :=
  concurrent && crowdSize < views.length

/-- The turns of views in so many rounds, each with the number of its round. A view has a turn in
every round until it answers or suspends for good. -/
def turns (rounds : Nat) (views : List (Nat × View α)) : List (Nat × (Nat × View α)) :=
  (List.range rounds).flatMap fun n => (views.filter fun v => n ≤ v.2.delay).map (n, ·)

/-- The views that answer in the course of some turns if there may be so many pauses. A pause comes
when, since the last pause or answer, two views have suspended or as many views were asked as have
not answered. -/
def served : (pauses unanswered asked suspended : Nat) → List (Nat × (Nat × View α)) →
    List (Nat × View α)
  | _, _, _, _, [] => []
  | pauses, unanswered, asked, suspended, (n, v) :: turns =>
    if v.2.answersWithin n then v :: served pauses (unanswered - 1) 0 0 turns
    else
      let suspended := if n < v.2.delay then suspended + 1 else suspended
      if suspended < 2 ∧ asked + 1 < unanswered then
        served pauses unanswered (asked + 1) suspended turns
      else match pauses with
        | 0 => []
        | pauses + 1 => served pauses unanswered 0 0 turns

/-- The views of a crowd that answer within so many suspensions. Between two pauses or answers at
most two views suspend, so that no more rounds than these are ever begun. -/
def inPortions (suspensions : Nat) (views : List (Nat × View α)) : List (Nat × View α) :=
  served suspensions views.length 0 0 (turns (2 * (suspensions + 1) + views.length + 1) views)

/-- The views that answer in time, in the order in which they do. -/
def schedule (concurrent : Bool) (suspensions : Nat) (views : List (Nat × View α)) :
    List (Nat × View α) :=
  if isCrowd concurrent views then inPortions suspensions views
  else if concurrent then atOnce suspensions views
  else inTurn suspensions views

/-- The order in which the answers of a crowd are let go before all have come. -/
def crowdOrder (answered all : List (Nat × View α)) : List (Nat × View α) :=
  (Lineup.ofList (answered.map Prod.fst)).toList.filterMap fun i => all.find? fun v => v.1 = i

/-- The views that answer before the first panic. -/
def answered (order : List (Nat × View α)) : List (Nat × View α) :=
  order.takeWhile fun v => v.2.panic?.isNone

/-- The guard that a view answers with, if it does, with the position of the view. -/
def guarded (v : Nat × View α) : Option (Nat × Guard α) := v.2.guard?.map (v.1, ·)

/-- What happens when views answer in the given order, of which the first panic is the end. Answers
that are let go before all have come are let go in the order of a crowd, or else in view order. -/
def inOrder (crowd : Bool) (views : List (View α)) (order : List (Nat × View α)) : Gathering α :=
  let all := positioned views
  let answered := answered order
  let ordered :=
    if crowd && answered.length < views.length then crowdOrder answered all
    else all.filter fun v => answered.any fun w => w.1 = v.1
  { ending :=
      match order.findSome? fun v => v.2.panic? with
      | some message => .panicked message
      | none => if order.length = views.length then .complete else .dropped
    events := (answered.filterMap guarded).map fun g => .acquired g.1
    held := ordered.filterMap guarded }

/-- What happens when all views are asked for a snapshot. -/
def gather (concurrent : Bool) (suspensions : Nat) (views : List (View α)) : Gathering α :=
  inOrder (isCrowd concurrent (positioned views)) views
    (schedule concurrent suspensions (positioned views))

end Gathering

end WorkspaceWatch
