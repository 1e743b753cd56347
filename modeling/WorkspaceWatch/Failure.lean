import WorkspaceWatch.FileSystem.IoFault
import WorkspaceWatch.Path.Basic

/-!
# Failures

Everything that can go wrong and is reported to a caller, by cause. `Failure.message` is the wording
of each, and `Failure.causes` the messages of what lies behind it, the nearest first.
-/

namespace WorkspaceWatch

/-- What went wrong. -/
inductive Failure where
  /-- An operation on files failed. -/
  | io (fault : IoFault)
  /-- The configuration cannot be used. -/
  | config (text : String)
  /-- A directory could not be watched. -/
  | watchSetup (path : Path) (reason : String)
  /-- The notifier rejected a batch. -/
  | notify (text : String)
  /-- The workspace has no views. -/
  | noActiveViews
  /-- None of the views produced a snapshot. -/
  | noUsableSnapshots (attempted : Nat)
  /-- A view did not produce a snapshot. -/
  | acquisition (view reason : String)
  /-- A query failed. -/
  | query (text : String)
  /-- A failure, and what was being done. -/
  | context (doing : String) (cause : Failure)
  /-- A fault of an operation on files, and what was being done. -/
  | ioContext (doing : String) (cause : IoFault)
  /-- Any other failure: what is said about it, and the messages of what lies behind it. -/
  | other (text : String) (causes : List String)
  deriving DecidableEq, Repr

namespace Failure

/-- What is said about a failure. -/
def message : Failure → String
  | .io fault => "I/O error: " ++ fault.message
  | .config text => "Configuration error: " ++ text
  | .watchSetup path reason => "Failed to watch " ++ path.text ++ ": " ++ reason
  | .notify text => "Notify error: " ++ text
  | .noActiveViews => "No active views in the workspace session"
  | .noUsableSnapshots attempted =>
    "No usable snapshots: all " ++ toString attempted ++ " view(s) failed to produce a snapshot"
  | .acquisition view reason =>
    "Snapshot acquisition failed for view " ++ view ++ ": " ++ reason
  | .query text => "Query error: " ++ text
  | .context doing cause => doing ++ ": " ++ cause.message
  | .ioContext doing cause => doing ++ ": " ++ cause.message
  | .other text _ => text

/-- What is said about the causes of a failure, the nearest first. -/
def causes : Failure → List String
  | .io fault => [fault.message]
  | .context _ cause => cause.message :: cause.causes
  | .ioContext _ cause => [cause.message]
  | .other _ causes => causes
  | _ => []

end Failure

end WorkspaceWatch
