import WorkspaceWatch.Change.Basic

/-!
# Bursts of changes

Changes come in bursts. A `Burst` gathers them and closes once nothing has been added for a whole
window: every change that is added moves the deadline to one window later. The deadline can also be
set without a change, so that something else is done when it passes. Times are whole milliseconds.
-/

namespace WorkspaceWatch

/-- The changes gathered so far, and when the burst closes. -/
structure Burst where
  /-- How long nothing may be added before the burst closes. -/
  window : Nat
  pending : List Change
  deadline? : Option Nat
  deriving DecidableEq, Repr

namespace Burst

/-- No changes and no deadline. -/
def empty (window : Nat) : Burst := ⟨window, [], none⟩

/-- Sets the deadline one window after `now`. -/
def arm (b : Burst) (now : Nat) : Burst := { b with deadline? := some (now + b.window) }

/-- Adds a change at the time `now`, which moves the deadline. -/
def push (b : Burst) (c : Change) (now : Nat) : Burst :=
  { b with pending := b.pending ++ [c] }.arm now

/-- Adds changes in order at the time `now`. -/
def pushAll (b : Burst) (cs : List Change) (now : Nat) : Burst := cs.foldl (·.push · now) b

/-- The deadline has come. -/
def isDue (b : Burst) (now : Nat) : Bool := b.deadline?.any (· ≤ now)

/-- The burst without its changes and its deadline. -/
def cleared (b : Burst) : Burst := empty b.window

@[simp] theorem window_arm (b : Burst) (now : Nat) : (b.arm now).window = b.window := rfl

@[simp] theorem pending_arm (b : Burst) (now : Nat) : (b.arm now).pending = b.pending := rfl

@[simp] theorem deadline_arm (b : Burst) (now : Nat) :
    (b.arm now).deadline? = some (now + b.window) := rfl

@[simp] theorem window_push (b : Burst) (c : Change) (now : Nat) :
    (b.push c now).window = b.window := rfl

@[simp] theorem pending_push (b : Burst) (c : Change) (now : Nat) :
    (b.push c now).pending = b.pending ++ [c] := rfl

@[simp] theorem deadline_push (b : Burst) (c : Change) (now : Nat) :
    (b.push c now).deadline? = some (now + b.window) := rfl

@[simp] theorem pending_pushAll (b : Burst) (cs : List Change) (now : Nat) :
    (b.pushAll cs now).pending = b.pending ++ cs := by
  unfold pushAll
  induction cs generalizing b with
  | nil => simp
  | cons c cs ih => simp [ih]

@[simp] theorem window_pushAll (b : Burst) (cs : List Change) (now : Nat) :
    (b.pushAll cs now).window = b.window := by
  unfold pushAll
  induction cs generalizing b with
  | nil => rfl
  | cons c cs ih => rw [List.foldl_cons, ih, window_push]

theorem deadline_pushAll (b : Burst) (cs : List Change) (now : Nat) :
    (b.pushAll cs now).deadline? = if cs = [] then b.deadline? else some (now + b.window) := by
  unfold pushAll
  induction cs generalizing b with
  | nil => rfl
  | cons c cs ih =>
    rw [List.foldl_cons, ih, deadline_push, window_push, ite_self, if_neg (List.cons_ne_nil c cs)]

theorem isDue_iff (b : Burst) (now : Nat) :
    b.isDue now = true ↔ ∃ d, b.deadline? = some d ∧ d ≤ now := by
  cases h : b.deadline? <;> simp [isDue, h]

end Burst

end WorkspaceWatch
