import WorkspaceWatch.FileSystem.Resolve

/-!
# Canonical paths

The canonical path of an entry leads to it from the root and holds no links, no `.` and no `..`. It
is spelled out name by name: each name is joined to the place reached so far, and the operating
system is asked what is at the path of that place. A link found there is replaced by its target.

So what is asked for is always a path from the root, as long as it may be. An entry to which a path
leads may therefore have no canonical path: a place on the way may have a path that is longer than
the operating system takes it, or lie in a directory that cannot be searched from the root.
-/

namespace WorkspaceWatch

namespace FileSystem

/-- The place to which the stretches `todo` lead from the directory at `d`, spelled out. Beyond a
link, spelling goes on with `jump`. -/
def spellWith (fs : FileSystem) (jump : Place → List Name → Except IoFault Place) :
    Place → List Name → Except IoFault Place
  | d, [] => .ok d
  | d, s :: todo =>
    if s = [] ∨ s = [dot] then spellWith fs jump d todo
    else if s = [dot, dot] then spellWith fs jump d.tail todo
    else match fs.locate .kept (Place.path (s :: d)) with
      | .error e => .error e
      | .ok (.vacant _ _) => .error .missing
      | .ok (.entry p (.directory _)) => spellWith fs jump p todo
      | .ok (.entry p (.file _)) => if todo = [] then .ok p else .error .notDirectory
      | .ok (.entry _ (.link target)) =>
        if target = [] then .error .missing
        else jump (if target.head? = some slash then [] else d) (segments target ++ todo)

/-- Spells out where stretches lead, following at most so many links. -/
def spell (fs : FileSystem) : (links : Nat) → Place → List Name → Except IoFault Place
  | 0 => spellWith fs fun _ _ => .error .tooManyLinks
  | links + 1 => spellWith fs (spell fs links)

/-- The canonical path of what a path leads to. The path itself may be of any length. -/
def canonicalize (fs : FileSystem) (p : Path) : Except IoFault Path :=
  if 0 ∈ p.bytes then .error .nulByte
  else if p.bytes = [] then .error .missing
  else if p.isAbsolute then (fs.spell maxLinks [] (segments p.bytes)).map Place.path
  else if fs.HasDirectory fs.workingDirectory then
    (fs.spell maxLinks fs.workingDirectory (segments p.bytes)).map Place.path
  else .error .missing

end FileSystem

end WorkspaceWatch
