import WorkspaceWatch.FileSystem.Canonical
import WorkspaceWatch.Ignore
import WorkspaceWatch.Tally
import WorkspaceWatch.Failure

/-!
# Coverage

Directories are watched one at a time, so a tree is covered by registering each of its directories,
and every directory that appears later has to be registered too. `Coverage` holds the registered
directories and, beside them, what the operating system's watcher has been told.

A **walk** starts at a directory, registers it unless it is registered, lists it, and goes on with
the directories it lists, the last one first, leaving out what is ignored. If links are followed, a
directory that is met again under another path is left alone, so that links which lead in circles do
no harm. It is recognised by its canonical path, as far as it has one.

* `Coverage.registerRoot` covers a tree or, at the first failure, leaves nothing registered.
* `Coverage.registerCreated` covers a new tree as well as it can and reports what is in it.
* `Coverage.unregister` forgets a directory and all below it.
* `Coverage.files` lists the files in registered directories.
-/

namespace WorkspaceWatch

/-- The operating system's watcher, as seen from here: the watches that are set, and every path for
which one was asked. -/
structure Backend where
  live : List Path := []
  attempts : List Path := []
  deriving DecidableEq, Repr

/-- Why the watcher refuses a path, if it does. -/
abbrev Backend.Policy := Backend → Path → Option String

/-- The watcher that refuses nothing. -/
def Backend.acceptAll : Backend.Policy := fun _ _ => none

/-- Which entries of a tree are covered. -/
structure Scope where
  ignore : IgnoreRules := .none
  /-- Directories behind links are covered too. -/
  followLinks : Bool := false
  deriving DecidableEq, Repr

/-- The registered directories, what the watcher was told about them, and the counters. -/
structure Coverage where
  directories : List Path := []
  backend : Backend := {}
  tally : Tally := {}
  deriving DecidableEq, Repr

/-- A directory that could not be registered or read, and why. -/
structure Refusal where
  path : Path
  reason : String
  deriving DecidableEq, Repr

namespace Scope

/-- The path leads to a directory that a walk would enter. -/
def enters (scope : Scope) (fs : FileSystem) (p : Path) : Bool :=
  fs.isDirectoryAt scope.followLinks p

/-- The paths of the entries that a directory lists, without the ignored ones. -/
def kept (scope : Scope) (dir : Path) (names : List Name) : List Path :=
  (names.map dir.child).filter fun p => !scope.ignore.ignores p

end Scope

namespace Coverage

/-- The path is a registered directory. -/
def isRegistered (c : Coverage) (p : Path) : Bool := c.directories.any fun d => d.Same p

/-- Counts an occurrence. -/
def record (c : Coverage) (o : Occurrence) : Coverage := { c with tally := c.tally.record o }

/-- Forgets one directory, and tells the watcher. -/
def unwatch (c : Coverage) (p : Path) : Coverage :=
  { c with
    directories := c.directories.filter fun d => !d.Same p
    backend := { c.backend with live := c.backend.live.filter fun d => !d.Same p } }

/-- Registers one directory that is not registered yet, if the watcher accepts it. -/
def watch (policy : Backend.Policy) (c : Coverage) (p : Path) : Coverage × Option String :=
  let asked : Backend := { c.backend with attempts := c.backend.attempts ++ [p] }
  match policy c.backend p with
  | some reason => ({ c with backend := asked }, some reason)
  | none =>
    ({ c with
       directories := c.directories ++ [p]
       backend := { asked with live := asked.live ++ [p] } }, none)

/-! ### Walking a tree -/

/-- The state of a walk. -/
structure Walk where
  coverage : Coverage
  /-- The directories that were visited, if links are followed, each as it is recognised. -/
  visited : List Path := []
  /-- The paths that this walk registered, in order. -/
  added : List Path := []
  /-- The entries that were met and are not ignored, in order. -/
  found : List Path := []

/-- What comes of turning to a directory. -/
inductive Visit where
  /-- There is nothing to enter. -/
  | passed (w : Walk)
  /-- It was entered and lists these directories. -/
  | entered (w : Walk) (children : List Path)
  /-- It could not be registered or read. -/
  | stopped (w : Walk) (refusal : Refusal)

variable (fs : FileSystem) (scope : Scope) (policy : Backend.Policy)

/-- The path by which a walk recognises a directory: its canonical path or, if that cannot be told,
the path at hand. -/
def Walk.landmark (dir : Path) : Path := (fs.canonicalize dir).toOption.getD dir

/-- The directory was visited before. This is asked only where links are followed. -/
def Walk.hasVisited (w : Walk) (dir : Path) : Bool :=
  scope.followLinks && w.visited.any fun p => p.Same (landmark fs dir)

/-- The walk has noted that it visits a directory, if links are followed. -/
def Walk.noted (w : Walk) (dir : Path) : Walk :=
  { w with visited := if scope.followLinks then landmark fs dir :: w.visited else w.visited }

/-- Registers a directory in the course of a walk, unless it is registered already. -/
def Walk.register (w : Walk) (dir : Path) : Walk × Option Refusal :=
  if w.coverage.isRegistered dir then (w, none)
  else match w.coverage.watch policy dir with
    | (c, none) => ({ w with coverage := c, added := w.added ++ [dir] }, none)
    | (c, some reason) => ({ w with coverage := c }, some ⟨dir, reason⟩)

/-- Turns to a directory, unless it was visited before: notes and registers it. -/
def Walk.approach (w : Walk) (dir : Path) : Option (Walk × Option Refusal) :=
  if w.hasVisited fs scope dir then none else some ((w.noted fs scope dir).register policy dir)

/-- Turns to a directory and enters it. A directory that cannot be read stops a strict walk and is
passed over by any other. -/
def Walk.visit (strict : Bool) (w : Walk) (dir : Path) : Visit :=
  match w.approach fs scope policy dir with
  | none => .passed w
  | some (w, some refusal) => .stopped w refusal
  | some (w, none) =>
    match fs.list dir with
    | .error e => if strict then .stopped w ⟨dir, e.message⟩ else .passed w
    | .ok (_, names) =>
      let kept := scope.kept dir names
      .entered { w with found := w.found ++ kept } (kept.filter (scope.enters fs))

/-- Goes with `go` into one waiting directory after the other, up to the first refusal. -/
def Walk.through (go : Path → Walk → Walk × Option Refusal) :
    List Path → Walk → Walk × Option Refusal
  | [], w => (w, none)
  | dir :: waiting, w =>
    match go dir w with
    | (w, none) => through go waiting w
    | (w, some refusal) => (w, some refusal)

/-- Walks the tree at a directory, at most so many levels down. -/
def Walk.descend (strict : Bool) : (levels : Nat) → Path → Walk → Walk × Option Refusal
  | 0, _, w => (w, none)
  | levels + 1, dir, w =>
    match w.visit fs scope policy strict dir with
    | .passed w => (w, none)
    | .stopped w refusal => (w, some refusal)
    | .entered w children => Walk.through (Walk.descend strict levels) children.reverse w

/-- Walks the tree at `start`. Paths get longer with every level, and what has a path that is too
long is not entered, so that there are levels enough. -/
def walk (strict : Bool) (c : Coverage) (start : Path) : Walk × Option Refusal :=
  let levels := maxPathLength - start.bytes.length
  Walk.descend fs scope policy strict (levels + 1) start { coverage := c }

/-- Counts what has come of a walk: its refusal, if there was one, and what it has registered. -/
def Walk.account (w : Walk) (refusal? : Option Refusal) : Coverage :=
  let c := if refusal?.isSome then w.coverage.record .registrationFailure else w.coverage
  if w.added = [] then c else c.record (.directoriesRegistered w.added.length)

/-! ### Registering and forgetting -/

/-- Covers the tree at `root`. If a directory of it cannot be registered or read, everything that
was registered on the way is forgotten again. The answer is how many directories were registered. -/
def registerRoot (c : Coverage) (root : Path) : Coverage × Except Failure Nat :=
  match walk fs scope policy true c root with
  | (w, none) =>
    (w.coverage.record (.directoriesRegistered w.added.length), .ok w.added.length)
  | (w, some refusal) =>
    (w.added.foldl unwatch w.coverage, .error (.watchSetup refusal.path refusal.reason))

/-- Covers the tree at a directory that has appeared, up to the first refusal, which is counted.
The answer is what is in the tree already. -/
def registerCreated (c : Coverage) (dir : Path) : Coverage × List Path :=
  let (w, refusal?) := walk fs scope policy false c dir
  (w.account refusal?, w.found)

/-- Forgets a directory and every registered one below it. The answer is how many there were. -/
def unregister (c : Coverage) (dir : Path) : Coverage × Nat :=
  let doomed := c.directories.filter fun d => d.Within dir
  (doomed.foldl unwatch c, doomed.length)

/-- The files in one directory: everything it lists that is no directory and is not ignored. -/
def filesIn (dir : Path) : List Path :=
  match fs.list dir with
  | .error _ => []
  | .ok (place, names) =>
    scope.kept dir (names.filter fun n => (fs.node? (n :: place)).any fun node => !node.isDirectory)

/-- The files in the registered directories. A directory that cannot be read is passed over. -/
def files (c : Coverage) : List Path := c.directories.flatMap (filesIn fs scope)

end Coverage

end WorkspaceWatch
