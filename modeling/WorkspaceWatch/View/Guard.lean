import WorkspaceWatch.Tally
import WorkspaceWatch.Text.Escaped

/-!
# Snapshots and their guards

A snapshot of a view is held by a guard, and whoever holds the guard owes its release. Releasing is
an action that runs the first time and never again: `Guard.release` says whether it runs. A guard
that is *tracked* is known to the counters, and its release is counted.
-/

namespace WorkspaceWatch

/-- A snapshot of a view, until it is released. -/
structure Guard (α : Type) where
  /-- The name of the view. -/
  view : String
  snapshot : α
  isReleased : Bool := false
  /-- The counters know of it. -/
  isTracked : Bool := false
  deriving DecidableEq, Repr

namespace Guard

variable {α : Type}

/-- Releases a guard. The answer is whether the release action runs. -/
def release (g : Guard α) : Guard α × Bool := ({ g with isReleased := true }, !g.isReleased)

/-- Makes a guard known to the counters. -/
def track (g : Guard α) : Guard α := { g with isTracked := true }

/-- The guard as it is shown to a developer. -/
def description (g : Guard α) : String :=
  "SnapshotGuard \x7b view_id: " ++ Escaped.quote g.view ++ ", released: " ++
    toString g.isReleased ++ " \x7d"

@[simp] theorem isReleased_release (g : Guard α) : g.release.1.isReleased = true := rfl

/-- A second release does nothing. -/
@[simp] theorem release_release (g : Guard α) : g.release.1.release = (g.release.1, false) := rfl

end Guard

end WorkspaceWatch
