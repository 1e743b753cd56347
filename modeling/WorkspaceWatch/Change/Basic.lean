import WorkspaceWatch.Path.Basic

/-!
# Changes and batches

A change says that a path was created, changed or deleted. A batch is the list of changes that a
notifier is handed in one call, in the order in which they arrived; a path may occur in it more
than once. A batch also says where its changes were observed.
-/

namespace WorkspaceWatch

/-- What happened to a path. -/
inductive ChangeKind where
  /-- The path came into existence. -/
  | created
  /-- What is at the path changed. -/
  | changed
  /-- The path was removed. -/
  | deleted
  deriving DecidableEq, Repr

/-- The word for a kind of change. -/
def ChangeKind.word : ChangeKind → String
  | .created => "created"
  | .changed => "changed"
  | .deleted => "deleted"

/-- One observed change. -/
structure Change where
  path : Path
  kind : ChangeKind
  deriving DecidableEq, Repr

namespace Change

/-- The path came into existence. -/
def created (p : Path) : Change := ⟨p, .created⟩

/-- What is at the path changed. -/
def changed (p : Path) : Change := ⟨p, .changed⟩

/-- The path was removed. -/
def deleted (p : Path) : Change := ⟨p, .deleted⟩

end Change

/-- Where changes were observed. -/
inductive Origin where
  /-- On disk. -/
  | disk
  /-- In an editor. -/
  | editor
  deriving DecidableEq, Repr

/-- The changes that are delivered together. -/
structure Batch where
  changes : List Change
  origin : Origin
  deriving DecidableEq, Repr

namespace Batch

/-- A batch of changes observed on disk. -/
def ofDisk (changes : List Change) : Batch := ⟨changes, .disk⟩

/-- How many changes the batch holds. -/
def size (b : Batch) : Nat := b.changes.length

/-- The changes recorded for a path in any of its spellings, in order. -/
def changesAt (b : Batch) (p : Path) : List Change := b.changes.filter fun c => c.path.Same p

/-- Some change of the batch is about the path. -/
def touches (b : Batch) (p : Path) : Bool := !(b.changesAt p).isEmpty

theorem touches_iff (b : Batch) (p : Path) :
    b.touches p = true ↔ ∃ c ∈ b.changes, c.path.Same p := by
  simp [touches, changesAt]

end Batch

end WorkspaceWatch
