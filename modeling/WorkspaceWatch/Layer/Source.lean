import WorkspaceWatch.FileSystem.Operations
import WorkspaceWatch.Json.Reader
import WorkspaceWatch.Layer.Key
import WorkspaceWatch.Toml.Document

/-!
# Sources of settings

A layer is what one source says: values, and the keys they go to. There are three sources: the
defaults, a file and the variables of the environment. `Layer.combine` puts layers on top of each
other, so that a later one prevails.
-/

namespace WorkspaceWatch

/-- What one source of settings says. -/
abbrev Layer := List (Layer.Key × Layer.Value)

/-- The variables of the environment, by name. -/
abbrev Environment := List (String × String)

namespace Layer

/-- The table that layers make, each on top of those before it. -/
def combine (layers : List Layer) : Except Misplacement Value :=
  layers.flatten.foldlM (fun root entry => root.set entry.1 entry.2) (.table [])

/-- What holds if no other source says anything. There is no key for patterns. -/
def defaults : Layer :=
  let settings : Settings := {}
  [(⟨"watcher", [.member "debounce_ms"]⟩, .integer settings.watcher.debounceMs.toNat),
    (⟨"watcher", [.member "follow_symlinks"]⟩, .boolean settings.watcher.followSymlinks),
    (⟨"watcher", [.member "resync_on_notify_failure"]⟩,
      .boolean settings.watcher.resyncOnNotifyFailure),
    (⟨"aggregator", [.member "concurrent_acquisition"]⟩,
      .boolean settings.aggregator.concurrentAcquisition)]

/-! ### Variables -/

/-- A text in which two underscores, wherever they stand together, become a point. -/
def withPoints : List Char → List Char
  | '_' :: '_' :: s => '.' :: withPoints s
  | c :: s => c :: withPoints s
  | [] => []

/-- What stands before the key in the name of a variable. -/
def variableMark : List Char := "wsync_".toList

/-- What a variable says, if it is meant for the settings. The letter case of its name does not
matter. -/
def ofVariable? (name text : String) : Option (Key × Value) :=
  let name := lowerText name.toList
  if variableMark.isPrefixOf name then
    some (.ofText (withPoints (name.drop variableMark.length)), .ofVariable text)
  else none

/-- What the variables of the environment say. -/
def ofVariables (env : Environment) : Layer :=
  env.filterMap fun v => ofVariable? v.1 v.2

/-! ### Files -/

/-- How a file of settings is written. -/
inductive Notation where
  | toml
  | json
  deriving DecidableEq, Repr

namespace Notation

/-- All of them. -/
def all : List Notation := [toml, json]

/-- The extension of files that are written so. -/
def extension : Notation → List UInt8
  | toml => [116, 111, 109, 108]
  | json => [106, 115, 111, 110]

/-- The extension in the name of a file: what follows the last point, unless that is the first
character of the name. -/
def extensionOf? (name : List UInt8) : Option (List UInt8) :=
  let back := name.reverse
  let after := back.takeWhile (· ≠ dot)
  if after.length + 1 < name.length then some after.reverse else none

/-- How a file of that name is written. -/
def ofName? (name : List UInt8) : Option Notation :=
  all.find? fun n => extensionOf? name = some n.extension

/-- The value of a whole text. -/
def read? (text : String) : Notation → Option Value
  | toml => (Toml.parse text).toOption.bind Value.ofToml?
  | json => (Json.parse text).toOption.map Value.ofJson

end Notation

/-- What a value that is a table says. The names in it are read as keys. -/
def ofTable? : Value → Option Layer
  | .table members => some (members.map fun m => (.ofText m.1.toList, m.2))
  | _ => none

/-- What the text of a file says. -/
def ofFileText? (text : String) (n : Notation) : Option Layer := do
  ofTable? (← n.read? text)

/-- The file that is read for a path and how it is written. For a path to a directory, that is a
file beside it with an extension after its name. -/
def fileFor? (fs : FileSystem) (p : Path) : Option (Path × Notation) := do
  let name ← p.name?
  if fs.isFileAt p then
    return (p, ← Notation.ofName? name)
  let parent ← p.parent?
  let candidates := Notation.all.map fun n =>
    (parent.child (name ++ dot :: n.extension), n)
  candidates.find? fun c => fs.isFileAt c.1

/-- What the file at a path says; nothing if there is none, and `none` if it cannot be read. -/
def ofFile? (fs : FileSystem) (p : Path) : Option Layer :=
  if fs.hasEntry p then do
    let (file, n) ← fileFor? fs p
    let text ← (fs.contentOf file).toOption
    ofFileText? text n
  else some []

end Layer

end WorkspaceWatch
