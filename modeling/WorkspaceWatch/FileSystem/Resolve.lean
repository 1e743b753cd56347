import WorkspaceWatch.FileSystem.Basic

/-!
# Where a path leads

A path is resolved one stretch at a time. An empty stretch and `.` stay where they are, `..` goes to
the directory around, a name enters what it names; each of them needs a directory to stand in, and
each but the empty one needs this directory to be searchable. A link met on the way is replaced by
its target, at most `maxLinks` times for one path. What is done about a link at the very end is up
to the caller, and so is whether the end may be spelled as a directory (`PathEnd`).

`FileSystem.locate` is this resolution. On it rest what a program asks about a path: what is there
(`status`), whether it is a directory to descend into (`isDirectoryAt`), its place (`place`) and
what it lists (`list`).
-/

namespace WorkspaceWatch

/-- Where a path leads. -/
inductive Destination where
  /-- To an entry. -/
  | entry (place : Place) (node : Node)
  /-- To a name that is not taken, in an existing directory. -/
  | vacant (directory : Place) (name : Name)
  deriving DecidableEq, Repr

/-- How many links are followed for one path. -/
def maxLinks : Nat := 40

/-- How many bytes a path may have. -/
def maxPathLength : Nat := 4095

/-- What is wrong with a path before it leads anywhere. -/
def Path.fault? (p : Path) : Option IoFault :=
  if 0 ∈ p.bytes then some .nulByte
  else if p.bytes.length > maxPathLength then some .nameTooLong
  else if p.bytes = [] then some .missing
  else none

/-- What a path is resolved for, which decides what is done at its end. -/
inductive PathEnd where
  /-- A link at the end is what the path leads to. -/
  | kept
  /-- A link at the end is followed. -/
  | followed
  /-- A link at the end is followed, and what the path leads to is going to be a file: a slash after
  the last name is refused, also in the target of a link. -/
  | written
  deriving DecidableEq, Repr

/-- The path of a place, from the root. -/
def Place.path (p : Place) : Path := ⟨slash :: Path.joinSegments p.reverse⟩

namespace FileSystem

/-- Resolves the stretches `todo`, standing in the directory at `d`. Beyond a link, resolution goes
on with `jump`. -/
def resolveWith (fs : FileSystem) (ending : PathEnd)
    (jump : Place → List Name → Except IoFault Destination) :
    Place → List Name → Except IoFault Destination
  | d, [] =>
    match fs.node? d with
    | some n => .ok (.entry d n)
    | none => .error .missing
  | d, s :: todo =>
    if s = [] then resolveWith fs ending jump d todo
    else if ¬fs.isSearchable d then .error .denied
    else if s = [dot] then resolveWith fs ending jump d todo
    else if s = [dot, dot] then resolveWith fs ending jump d.tail todo
    else if ending = .written ∧ todo ≠ [] ∧ todo.all (· = []) then .error .isDirectory
    else if s.length > maxNameLength then .error .nameTooLong
    else match fs.node? (s :: d) with
      | none => if todo = [] then .ok (.vacant d s) else .error .missing
      | some (.directory _) => resolveWith fs ending jump (s :: d) todo
      | some (.file content) =>
        if todo = [] then .ok (.entry (s :: d) (.file content)) else .error .notDirectory
      | some (.link target) =>
        if todo = [] ∧ ending = .kept then .ok (.entry (s :: d) (.link target))
        else if target = [] then .error .missing
        else jump (if target.head? = some slash then [] else d) (segments target ++ todo)

/-- Resolves stretches, following at most so many links. -/
def resolve (fs : FileSystem) (ending : PathEnd) :
    (links : Nat) → Place → List Name → Except IoFault Destination
  | 0 => resolveWith fs ending fun _ _ => .error .tooManyLinks
  | links + 1 => resolveWith fs ending (resolve fs ending links)

/-- Where a path leads. -/
def locate (fs : FileSystem) (ending : PathEnd) (p : Path) : Except IoFault Destination :=
  match p.fault? with
  | some e => .error e
  | none =>
    if p.isAbsolute then fs.resolve ending maxLinks [] (segments p.bytes)
    else if fs.HasDirectory fs.workingDirectory then
      fs.resolve ending maxLinks fs.workingDirectory (segments p.bytes)
    else .error .missing

/-- What a path leads to in the end. -/
def status (fs : FileSystem) (p : Path) : Except IoFault Node :=
  match fs.locate .followed p with
  | .ok (.entry _ n) => .ok n
  | .ok (.vacant _ _) => .error .missing
  | .error e => .error e

/-- The path leads to something. -/
def hasEntry (fs : FileSystem) (p : Path) : Bool := (fs.status p).isOk

/-- The path leads to a directory; a link at its end counts only with `follow`. -/
def isDirectoryAt (fs : FileSystem) (follow : Bool) (p : Path) : Bool :=
  match fs.locate (if follow then .followed else .kept) p with
  | .ok (.entry _ n) => n.isDirectory
  | _ => false

/-- The place to which a path leads in the end. -/
def place (fs : FileSystem) (p : Path) : Except IoFault Place :=
  match fs.locate .followed p with
  | .ok (.entry d _) => .ok d
  | .ok (.vacant _ _) => .error .missing
  | .error e => .error e

/-- The place of the directory to which a path leads and the names that it lists. -/
def list (fs : FileSystem) (p : Path) : Except IoFault (Place × List Name) :=
  match fs.locate .followed p with
  | .ok (.entry d (.directory access)) =>
    if access.readable then .ok (d, fs.names d) else .error .denied
  | .ok (.entry _ _) => .error .notDirectory
  | .ok (.vacant _ _) => .error .missing
  | .error e => .error e

end FileSystem

end WorkspaceWatch
