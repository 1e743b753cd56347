import WorkspaceWatch.Change.Basic
import WorkspaceWatch.FileSystem.Resolve

/-!
# Signals

What the operating system reports about watched directories: a kind of event, the paths concerned,
and whether some events were lost. `Signal.changes` reads a signal as changes, one for each path and
in the order of the paths. Being read is no change and yields nothing. A rename is a deletion of the
old path and a creation of the new one; where a signal does not say which side it is about, a path
at which there is something was created, any other deleted. Whatever is not known otherwise counts
as a change of its paths.
-/

namespace WorkspaceWatch

/-- How a file was opened or closed. -/
inductive AccessMode where
  | any
  | execute
  | read
  | write
  | other
  deriving DecidableEq, Repr

/-- How a file was accessed. -/
inductive AccessKind where
  | any
  | read
  | opened (mode : AccessMode)
  | closed (mode : AccessMode)
  | other
  deriving DecidableEq, Repr

/-- What sort of entry was created or removed. -/
inductive EntryKind where
  | any
  | file
  | folder
  | other
  deriving DecidableEq, Repr

/-- What about a file's data changed. -/
inductive DataKind where
  | any
  | size
  | content
  | other
  deriving DecidableEq, Repr

/-- What about a file's metadata changed. -/
inductive MetadataKind where
  | any
  | accessTime
  | writeTime
  | permissions
  | ownership
  | extended
  | other
  deriving DecidableEq, Repr

/-- Which side of a rename a signal is about. -/
inductive RenameSide where
  | any
  | new
  | old
  /-- The old path, then the new one. -/
  | both
  | other
  deriving DecidableEq, Repr

/-- How something was modified. -/
inductive ModifyKind where
  | any
  | data (kind : DataKind)
  | metadata (kind : MetadataKind)
  | name (side : RenameSide)
  | other
  deriving DecidableEq, Repr

/-- What a signal reports. -/
inductive SignalKind where
  | any
  | access (kind : AccessKind)
  | create (kind : EntryKind)
  | modify (kind : ModifyKind)
  | remove (kind : EntryKind)
  | other
  deriving DecidableEq, Repr

/-- A report of the operating system. -/
structure Signal where
  kind : SignalKind
  paths : List Path
  /-- Some events were lost, and everything has to be looked at again. -/
  rescan : Bool := false
  deriving DecidableEq, Repr

/-- What arrives from the operating system: a signal, or word that watching failed. -/
inductive Notice where
  | signal (s : Signal)
  | fault (text : String)
  deriving DecidableEq, Repr

namespace RenameSide

/-- A path of a rename whose side is unknown. -/
def guess (fs : FileSystem) (p : Path) : Change :=
  if fs.hasEntry p then .created p else .deleted p

/-- The changes that a rename makes at its paths. -/
def changes (side : RenameSide) (fs : FileSystem) (paths : List Path) : List Change :=
  match side with
  | .old => paths.map .deleted
  | .new => paths.map .created
  | .both =>
    match paths with
    | [] => []
    | [a] => [.deleted a]
    | a :: b :: rest => .deleted a :: .created b :: rest.map .changed
  | .any => paths.map (guess fs)
  | .other => paths.map (guess fs)

end RenameSide

namespace Signal

/-- The changes that a signal reports, as the file system is now. -/
def changes (s : Signal) (fs : FileSystem) : List Change :=
  match s.kind with
  | .access (.closed .write) => s.paths.map .changed
  | .access _ => []
  | .create _ => s.paths.map .created
  | .remove _ => s.paths.map .deleted
  | .modify (.name side) => side.changes fs s.paths
  | _ => s.paths.map .changed

end Signal

end WorkspaceWatch
