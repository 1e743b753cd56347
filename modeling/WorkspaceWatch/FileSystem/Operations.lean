import WorkspaceWatch.FileSystem.Edit
import WorkspaceWatch.FileSystem.Resolve

/-!
# Files and directories by path

What programs do to files: they make directories, write and read files, make links, remove and
rename. Each operation is given a path and either answers with the changed file system or says why
it refuses. Nothing is overwritten but the content of a file and, by a rename, a file or an empty
directory.

An `Edit` is one such operation that first makes the directories around its path where they are
missing, and `FileSystem.edit` performs a list of them.
-/

namespace WorkspaceWatch

namespace Path

/-- The path without the slashes at its end; the root stays. -/
def withoutEndSlashes (p : Path) : Path :=
  match (p.bytes.reverse.dropWhile (· = slash)).reverse with
  | [] => ⟨p.bytes.take 1⟩
  | bs => ⟨bs⟩

end Path

namespace FileSystem

/-- Where the path of an entry leads. Slashes at its end do not count, and a link there is kept. -/
def locateEntry (fs : FileSystem) (p : Path) : Except IoFault Destination :=
  match p.fault? with
  | some e => .error e
  | none => fs.locate .kept p.withoutEndSlashes

/-! ### Directories -/

/-- Makes the directory `p`, in a directory that exists. -/
def makeDirectory (fs : FileSystem) (p : Path) : Except IoFault FileSystem :=
  match fs.locateEntry p with
  | .ok (.vacant d name) => .ok (fs.insert d name (.directory {}))
  | .ok (.entry _ _) => .error .alreadyThere
  | .error e => .error e

/-- Makes the directory `p` unless it is there. -/
def ensureDirectory (fs : FileSystem) (p : Path) : Except IoFault FileSystem :=
  match fs.makeDirectory p with
  | .ok fs => .ok fs
  | .error e => if fs.isDirectoryAt true p then .ok fs else .error e

/-- Makes the directory `p` and up to so many missing ones around it. -/
def makeDirectoriesWithin : (levels : Nat) → FileSystem → Path → Except IoFault FileSystem
  | 0, fs, p => fs.ensureDirectory p
  | levels + 1, fs, p =>
    match fs.ensureDirectory p with
    | .error (.os 2) =>
      match p.parent? with
      | some parent =>
        if parent.bytes = [] then .error .missing
        else (makeDirectoriesWithin levels fs parent).bind (·.ensureDirectory p)
      | none => .error .missing
    | r => r

/-- Makes the directory `p` and those around it, where they are missing. The empty path stands for
the working directory. -/
def makeDirectories (fs : FileSystem) (p : Path) : Except IoFault FileSystem :=
  if p.bytes = [] then .ok fs else makeDirectoriesWithin p.components.length fs p

/-! ### Files -/

/-- Writes the file `p`, in a directory that exists. A file that is there gets the new content; a
link at the end of the path is followed even if nothing is where it leads. -/
def writeContent (fs : FileSystem) (p : Path) (content : String) : Except IoFault FileSystem :=
  match fs.locate .written p with
  | .ok (.vacant d name) => .ok (fs.insert d name (.file content))
  | .ok (.entry place (.file _)) => .ok (fs.write place content)
  | .ok (.entry _ _) => .error .isDirectory
  | .error e => .error e

/-- The content of the file `p`. -/
def contentOf (fs : FileSystem) (p : Path) : Except IoFault String :=
  match fs.status p with
  | .ok (.file content) => .ok content
  | .ok _ => .error .isDirectory
  | .error e => .error e

/-- The path leads to a file. -/
def isFileAt (fs : FileSystem) (p : Path) : Bool := (fs.contentOf p).isOk

/-! ### Links, removing, renaming -/

/-- Makes a link with a target, in a directory that exists. -/
def makeLink (fs : FileSystem) (p : Path) (target : List UInt8) : Except IoFault FileSystem :=
  match fs.locate .kept p with
  | .ok (.vacant d name) => .ok (fs.insert d name (.link target))
  | .ok (.entry _ _) => .error .alreadyThere
  | .error e => .error e

/-- Removes what is at `p`, a directory with everything in it. -/
def remove (fs : FileSystem) (p : Path) : Except IoFault FileSystem :=
  match fs.locateEntry p with
  | .ok (.entry place _) => .ok (fs.removeTree place)
  | .ok (.vacant _ _) => .error .missing
  | .error e => .error e

/-- A rename of the node `n` may replace what is at the place. -/
def replaceable (fs : FileSystem) (n : Node) (place : Place) (old : Node) : Except IoFault Unit :=
  match n.isDirectory, old.isDirectory with
  | true, false => .error .notDirectory
  | false, true => .error .isDirectory
  | true, true => if fs.names place = [] then .ok () else .error .notEmpty
  | false, false => .ok ()

/-- Renames `a` to `b`. -/
def rename (fs : FileSystem) (a b : Path) : Except IoFault FileSystem := do
  let .entry source n ← fs.locateEntry a | throw .missing
  match ← fs.locateEntry b with
  | .vacant d name =>
    if source <:+ d then throw .invalidArgument else return fs.moveTree source d name
  | .entry target old =>
    if target = source then return fs
    else if source <:+ target then throw .invalidArgument
    else match target with
      | [] => throw .notEmpty
      | name :: d =>
        fs.replaceable n target old
        return (fs.removeTree target).moveTree source d name

end FileSystem

/-! ### Edits -/

/-- One change of a file system. -/
inductive Edit where
  | directory (p : Path)
  | file (p : Path) (content : String)
  | link (p : Path) (target : List UInt8)
  | remove (p : Path)
  | move (source target : Path)
  deriving DecidableEq, Repr

namespace Edit

/-- The directory around `p` is made if it is missing. -/
def around (fs : FileSystem) (p : Path) : Except IoFault FileSystem :=
  match p.parent? with
  | some parent => fs.makeDirectories parent
  | none => .ok fs

/-- Performs the change. -/
def apply (fs : FileSystem) : Edit → Except IoFault FileSystem
  | directory p => fs.makeDirectories p
  | file p content => do (← around fs p).writeContent p content
  | link p target => do (← around fs p).makeLink p target
  | remove p => fs.remove p
  | move source target => fs.rename source target

end Edit

/-- Performs changes in order; one that is refused changes nothing. -/
def FileSystem.edit (fs : FileSystem) (edits : List Edit) : FileSystem :=
  edits.foldl (fun fs e => (e.apply fs).toOption.getD fs) fs

end WorkspaceWatch
