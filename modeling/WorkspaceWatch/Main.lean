import WorkspaceWatch.Command.Run

/-!
# The program

The outermost layer: it looks at the files that an invocation is about, runs it and writes what it
says. Word of changes comes on the standard input, one path a line; every path is looked at again
when it is named, and batches are reported as soon as the window has passed. The end of the input
ends the watch.
-/

namespace WorkspaceWatch

namespace Program

/-- The variables of the environment. -/
def environment : IO Environment := do
  let bytes ← try IO.FS.readBinFile "/proc/self/environ" catch _ => pure ByteArray.empty
  let entries := bytes.toList.splitBy fun a _ => a ≠ 0
  return entries.map fun v =>
    let text := Utf8.decodeLossy (v.filter (· ≠ 0))
    (String.ofList (text.takeWhile (· ≠ '=')), String.ofList ((text.dropWhile (· ≠ '=')).drop 1))

/-- The edit after which a path leads to what is there now. Whatever can be neither read nor found
missing is taken for a directory. -/
def look (p : Path) : IO Edit := do
  try
    let bytes ← IO.FS.readBinFile p.text
    return .file p (String.ofList (Utf8.decodeLossy bytes.toList))
  catch
    | .noFileOrDirectory _ _ _ => return .remove p
    | _ => return .directory p

/-- The files that may tell the settings, where `path` is their file. -/
def settingsFiles (path : Path) : List Path :=
  path :: Layer.Notation.all.map fun n => ⟨path.bytes ++ dot :: n.extension⟩

/-- The paths to look at before an invocation can run. -/
def pathsOf (i : Invocation) (env : Environment) : List Path :=
  let home := Settings.homeDirectory ((env.lookup "HOME").map Path.ofString)
  let root? :=
    match i.command with
    | .watch root? _ _ => root?
    | .config => none
  settingsFiles (i.config?.getD (Settings.globalPath home)) ++ root?.toList

/-- Watches until the input ends. -/
partial def watch (input output : IO.FS.Stream) (session : Session) : IO Session := do
  let line ← input.getLine
  if line.isEmpty then return session
  let path := Path.ofString (String.ofList (line.toList.filter (· ≠ '\n')))
  let next := (session.edit (← look path)).rest
  output.putStr (String.ofList next.output)
  output.flush
  watch input output { next with output := [] }

/-- Runs an invocation. -/
def run (i : Invocation) : IO Exit := do
  let env ← environment
  let here := Path.ofString ((env.lookup "PWD").getD "/")
  let seen ← (pathsOf i env).mapM fun p => look (here.relativeTo p)
  let fs := FileSystem.empty.edit (.directory here :: seen)
  let fs := { fs with workingDirectory := (fs.place here).toOption.getD [] }
  match i.command with
  | .config => return i.run fs env []
  | .watch root? debounceMs? json =>
    match Invocation.startWatching fs env i.config? root? debounceMs? json with
    | .error t => return .ofTrouble t
    | .ok session =>
      let session ← watch (← IO.getStdin) (← IO.getStdout) session
      return { summary? := some (Session.summary session.close) }

end Program

end WorkspaceWatch

open WorkspaceWatch in
/-- Runs the program. -/
def main (args : List String) : IO UInt32 := do
  let result ←
    match Invocation.ofArguments args with
    | .ok i => Program.run i
    | .error stop => pure (.ofStop stop)
  (← IO.getStdout).putStr (String.ofList result.output)
  (← IO.getStderr).putStr (String.ofList result.report)
  match result.summary? with
  | some summary => (← IO.getStderr).putStrLn summary
  | none => pure ()
  return result.code.toUInt32
