import WorkspaceWatch.FileSystem.Operations
import WorkspaceWatch.Watch.Coverage
import WorkspaceWatch.Watch.Signal

/-!
# Sightings

How the operating system lets a watcher know of an edit: by signals about entries of watched
directories, named as such, whatever path the edit used. A directory that is watched under several
paths goes by the one under which it was watched last. What happens in a directory that is not
watched goes unnoticed, and so does what is inside a directory that appears or goes as a whole.
-/

namespace WorkspaceWatch

/-- The path under which the entry at `p` is seen, if it is seen. -/
def Backend.sightingPath? (b : Backend) (fs : FileSystem) (p : Path) : Option Path := do
  let name ← p.name?
  let parent ← p.parent?
  let place ← (fs.place parent).toOption
  let dir ← b.live.reverse.find? fun d => (fs.place d).toOption = some place
  return dir.child name

namespace Edit

/-- The entry at a path, without following a link there. -/
def nodeAt? (fs : FileSystem) (p : Path) : Option Node :=
  match fs.locateEntry p with
  | .ok (.entry _ n) => some n
  | _ => none

/-- What happens to an entry when an edit is performed, in order. -/
def happenings (fs : FileSystem) : Edit → List (SignalKind × Path)
  | directory p => if (nodeAt? fs p).isNone then [(.create .folder, p)] else []
  | file p content =>
    (if (nodeAt? fs p).isNone then [(.create .file, p)] else []) ++
      (if content = "" then [] else [(.modify (.data .any), p)]) ++
      [(.access (.closed .write), p)]
  | link p _ => [(.create .file, p)]
  | remove p => [(.remove (if (nodeAt? fs p).any Node.isDirectory then .folder else .file), p)]
  | move a b => [(.modify (.name .old), a), (.modify (.name .new), b)]

/-- A rename of which both sides are seen is reported as a whole, too. -/
def wholeRename (sightingPath? : Path → Option Path) : Edit → List Signal
  | move a b =>
    match sightingPath? a, sightingPath? b with
    | some a, some b => [{ kind := .modify (.name .both), paths := [a, b] }]
    | _, _ => []
  | _ => []

/-- The signals about an edit. -/
def sightings (fs : FileSystem) (b : Backend) (e : Edit) : List Signal :=
  match e.apply fs with
  | .error _ => []
  | .ok after =>
    (e.happenings fs).filterMap (fun h =>
      (b.sightingPath? after h.2).map fun p => { kind := h.1, paths := [p] }) ++
      e.wholeRename (b.sightingPath? after)

end Edit

end WorkspaceWatch
