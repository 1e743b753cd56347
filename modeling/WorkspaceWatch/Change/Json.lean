import WorkspaceWatch.Change.Basic
import WorkspaceWatch.Json.Decode

/-!
# Batches as JSON

The JSON form of a batch is an object of its changes and its origin, and each change is an object of
its path and its kind. A path is written as a string, so a batch has a JSON form exactly when all of
its paths are text.
-/

namespace WorkspaceWatch

open Json (Decoder RecordField decodeRecord decodeList decodeName decodeText)

/-- The name of a kind of change in JSON. -/
def ChangeKind.name : ChangeKind → String
  | .created => "Created"
  | .changed => "Changed"
  | .deleted => "Deleted"

/-- The name of an origin in JSON. -/
def Origin.name : Origin → String
  | .disk => "Disk"
  | .editor => "Editor"

namespace Path

/-- The JSON form of a path that is text. -/
def toJson? (p : Path) : Option Json :=
  (Utf8.decode? p.bytes).map fun s => .text (String.ofList s)

/-- Reads a path. -/
def decode : Decoder Path := fun s => (decodeText s).map fun r => (Path.ofString r.1, r.2)

end Path

namespace Change

/-- The JSON form of a change. -/
def toJson? (c : Change) : Option Json :=
  c.path.toJson?.map fun path => .object [("path", path), ("kind", .text c.kind.name)]

/-- The fields of a change, read so far. -/
structure Draft where
  path? : Option Path := none
  kind? : Option ChangeKind := none

/-- The fields of a change, in order. -/
def fields : List (RecordField Draft) :=
  [{ name := "path"
     isFilled := fun d => d.path?.isSome
     fill := fun d s => (Path.decode s).map fun r => ({ d with path? := some r.1 }, r.2) },
   { name := "kind"
     isFilled := fun d => d.kind?.isSome
     fill := fun d s =>
       (decodeName [("Created", .created), ("Changed", .changed), ("Deleted", .deleted)] s).map
         fun r => ({ d with kind? := some r.1 }, r.2) }]

/-- Reads a change. -/
def decode : Decoder Change := fun s =>
  match decodeRecord fields {} s with
  | .error e => .error e
  | .ok (⟨some path, some kind⟩, s) => .ok (⟨path, kind⟩, s)
  | .ok _ => .error .mismatched

end Change

namespace Batch

/-- The JSON form of a batch. -/
def toJson? (b : Batch) : Option Json :=
  (b.changes.mapM Change.toJson?).map fun changes =>
    .object [("events", .array changes), ("origin", .text b.origin.name)]

/-- The fields of a batch, read so far. -/
structure Draft where
  changes? : Option (List Change) := none
  origin? : Option Origin := none

/-- The fields of a batch, in order. -/
def fields : List (RecordField Draft) :=
  [{ name := "events"
     isFilled := fun d => d.changes?.isSome
     fill := fun d s =>
       (decodeList Change.decode s).map fun r => ({ d with changes? := some r.1 }, r.2) },
   { name := "origin"
     isFilled := fun d => d.origin?.isSome
     fill := fun d s =>
       (decodeName [("Disk", .disk), ("Editor", .editor)] s).map
         fun r => ({ d with origin? := some r.1 }, r.2) }]

/-- Reads a batch. -/
def decode : Decoder Batch := fun s =>
  match decodeRecord fields {} s with
  | .error e => .error e
  | .ok (⟨some changes, some origin⟩, s) => .ok (⟨changes, origin⟩, s)
  | .ok _ => .error .mismatched

end Batch

end WorkspaceWatch
