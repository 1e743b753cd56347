import WorkspaceWatch.Layer.Source
import WorkspaceWatch.Settings.Toml

/-!
# Where settings are kept

`Settings.load` puts the settings together that hold for a program: the defaults, on top of them
what a file says, and on top of that what the variables of the environment say. Only what comes out
at the end is looked at, so that a value which is replaced does no harm, whatever it is. What is
loaded can be used (`Settings.validate`). A key with a position outside of its list is not a fault
of the settings but makes the program panic (`LoadFault`).

`Settings.save` writes settings to a file, where `Settings.load` finds them again.
-/

namespace WorkspaceWatch

/-- Why no settings come of their sources. -/
inductive LoadFault where
  /-- The sources do not give settings that can be used. -/
  | failure (f : Failure)
  /-- The program panics. -/
  | panic (message : String)
  deriving DecidableEq, Repr

namespace Settings

/-- The home directory of an account for which no variable names one. -/
def accountHome : Path := .ofString "/root"

/-- The home directory, where a variable may say what it is. An empty path says nothing. -/
def homeDirectory (said? : Option Path) : Path :=
  match said? with
  | some home => if home.bytes = [] then accountHome else home
  | none => accountHome

/-- The file of the settings that hold wherever no other file is named. -/
def globalPath (home : Path) : Path :=
  (home.child (Utf8.encode ".wsync".toList)).child (Utf8.encode "config.toml".toList)

/-- The settings that a value is taken for. -/
def ofValue (v : Layer.Value) : Except Failure Settings :=
  match Layer.Value.format.settings? v with
  | none => .error (.config "Failed to deserialize config: a value cannot be taken for a setting")
  | some s => s.validate.map fun _ => s

/-- The settings that layers make together. -/
def ofLayers (layers : List Layer) : Except LoadFault Settings :=
  match Layer.combine layers with
  | .error e => .error (.panic e.message)
  | .ok v => (ofValue v).mapError .failure

/-- The settings that hold with the file at `path`. -/
def loadFrom (fs : FileSystem) (env : Environment) (path : Path) :
    Except LoadFault Settings :=
  match Layer.ofFile? fs path with
  | none => .error (.failure (.config ("Failed to build config: cannot read " ++ path.text)))
  | some file => ofLayers [Layer.defaults, file, Layer.ofVariables env]

/-- The settings that hold with the named file, or else with the global one. -/
def load (fs : FileSystem) (env : Environment) (path? : Option Path) :
    Except LoadFault Settings :=
  let home := homeDirectory ((env.lookup "HOME").map Path.ofString)
  loadFrom fs env (path?.getD (globalPath home))

/-- The file system once the directories around a path are made where they are missing. -/
def makeParent (fs : FileSystem) (path : Path) : Except Failure FileSystem :=
  match path.parent? with
  | none => .ok fs
  | some parent =>
    (fs.makeDirectories parent).mapError
      (.ioContext ("Failed to create config directory " ++ parent.text))

/-- The file system once the settings are written to a file. -/
def save (fs : FileSystem) (path : Path) (s : Settings) : Except Failure FileSystem := do
  let text ← s.toTomlText
  let fs ← makeParent fs path
  (fs.writeContent path text).mapError (.ioContext ("Failed to write config file " ++ path.text))

end Settings

end WorkspaceWatch
