import WorkspaceWatch.Change.Json
import WorkspaceWatch.Failure

/-!
# Reporting batches

A batch is reported either in the log, which is not modelled, or as one line of JSON on the standard
output. A batch in which some path is not text has no JSON form; it is rejected and nothing is
written.
-/

namespace WorkspaceWatch

/-- How batches are reported. -/
inductive ReportFormat where
  | log
  | json
  deriving DecidableEq, Repr

namespace ReportFormat

/-- What is written for a batch. -/
def report (format : ReportFormat) (b : Batch) : Except Failure (List Char) :=
  match format with
  | .log => .ok []
  | .json =>
    match b.toJson? with
    | some j => .ok (j.render ++ ['\n'])
    | none => .error (.other "path contains invalid UTF-8 characters" [])

/-- What is written for batches that are reported one after the other. -/
def reportAll (format : ReportFormat) (bs : List Batch) : List Char :=
  bs.flatMap fun b => (format.report b).toOption.getD []

end ReportFormat

end WorkspaceWatch
