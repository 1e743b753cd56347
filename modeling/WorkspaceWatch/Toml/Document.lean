import WorkspaceWatch.Toml.Reader

/-!
# TOML documents

What tables the entries of a document make. A header may complete a table that so far is only
**implied** by the headers of tables within it, or add a table to an array that headers made; a
dotted key may add to tables that other **dotted** keys of the same table made. Everything else that
names a table or a key a second time is refused, and so is whatever would go into a value. The
members of a table are in the order in which they were named first, but a table that was implied
counts as named where it is completed.

`Toml.parse` reads a whole document.
-/

namespace WorkspaceWatch

namespace Toml

/-- How a table of a document came to be. -/
inductive Origin where
  /-- A header names a table within it. -/
  | implied
  /-- A dotted key goes through it. -/
  | dotted
  /-- A header names it, or it is the document itself. -/
  | defined
  deriving DecidableEq, Repr

/-- What a name stands for in a document that is being read. -/
inductive Item where
  | value (v : Toml)
  | table (origin : Origin) (members : List (String × Item))
  /-- An array whose tables were made by headers. Only the last one can still be added to. -/
  | tables (earlier : List (List (String × Item))) (last : List (String × Item))

/-- The members of a table that is being read. -/
abbrev Members := List (String × Item)

/-- Gives the end of `path`, which starts at a table of some origin, what `f` makes of it and of the
origin of the table it is in. The tables on the way are made if need be. A dotted path does not
enter tables that a header defined. -/
def alterAt (isDotted : Bool) (f : Origin → Option Item → Except Fault Item) :
    (path : List String) → Origin → Members → Except Fault Members
  | [], _, ms => .ok ms
  | [name], origin, ms => alterMember name (f origin) ms
  | name :: path, _, ms =>
    alterMember name (fun
      | none =>
        let origin := if isDotted then .dotted else .implied
        (alterAt isDotted f path origin []).map (.table origin)
      | some (.table origin inner) =>
        if isDotted ∧ origin = .defined then .error (.duplicate name)
        else (alterAt isDotted f path origin inner).map (.table origin)
      | some (.tables earlier last) =>
        (alterAt isDotted f path .defined last).map (.tables earlier)
      | some (.value _) => .error (.notTable name)) ms

/-- The last name of a path. -/
def lastName (path : List String) : String := path.getLast?.getD ""

/-- Moves the member at `path` behind the other members of its table. -/
def moveLast : (path : List String) → Members → Members
  | [], ms => ms
  | [name], ms => (ms.filter fun m => m.1 ≠ name) ++ ms.filter fun m => m.1 = name
  | name :: path, ms => ms.map fun
    | (k, .table origin inner) =>
      (k, .table origin (if k = name then moveLast path inner else inner))
    | (k, .tables earlier last) =>
      (k, .tables earlier (if k = name then moveLast path last else last))
    | m => m

/-- Defines the table at `path`. -/
def defineTable (path : List String) (root : Members) : Except Fault Members :=
  (alterAt false (fun _ old? =>
    match old? with
    | none => .ok (.table .defined [])
    | some (.table .implied ms) => .ok (.table .defined ms)
    | some _ => .error (.duplicate (lastName path))) path .defined root).map (moveLast path)

/-- Adds a table to the array at `path`. -/
def appendTable (path : List String) (root : Members) : Except Fault Members :=
  alterAt false (fun _ old? =>
    match old? with
    | none => .ok (.tables [] [])
    | some (.tables earlier last) => .ok (.tables (earlier ++ [last]) [])
    | some _ => .error (.duplicate (lastName path))) path .defined root

/-- Adds a pair to a table. -/
def addPair (path : List String) (v : Toml) (table : Members) : Except Fault Members :=
  alterAt true (fun origin old? =>
    if old?.isSome ∨ (1 < path.length ∧ origin ≠ .dotted) then .error (.duplicate (lastName path))
    else .ok (.value v)) path .defined table

/-- Changes the table that the header `path` has opened. -/
def alterTable (f : Members → Except Fault Members) (path : List String) (root : Members) :
    Except Fault Members :=
  if path = [] then f root
  else
    alterAt false (fun _ old? =>
      match old? with
      | some (.table origin ms) => (f ms).map (.table origin)
      | some (.tables earlier last) => (f last).map (.tables earlier)
      | _ => .error (.notTable (lastName path))) path .defined root

/-- A document of which some entries have been read. -/
structure Draft where
  /-- The path of the last header, empty before the first. -/
  header : List String := []
  /-- The table that the document itself is. -/
  root : Members := []

/-- The document after one more entry. -/
def Draft.add (draft : Draft) : Entry → Except Fault Draft
  | .table path => (defineTable path draft.root).map fun root => ⟨path, root⟩
  | .arrayItem path => (appendTable path draft.root).map fun root => ⟨path, root⟩
  | .pair path v =>
    (alterTable (addPair path v) draft.header draft.root).map fun root => { draft with root }

mutual

/-- What a name stands for, as a value. -/
def Item.toToml : Item → Toml
  | .value v => v
  | .table _ ms => .table (toMembers ms)
  | .tables earlier last => .array (toTables earlier ++ [.table (toMembers last)])

/-- The members of a table, as values. -/
def toMembers : List (String × Item) → List (String × Toml)
  | [] => []
  | (name, item) :: ms => (name, item.toToml) :: toMembers ms

/-- Some tables, as values. -/
def toTables : List (List (String × Item)) → List Toml
  | [] => []
  | t :: ts => .table (toMembers t) :: toTables ts

end

/-- The table that a text is a document of. -/
def parse (text : String) : Except Fault Toml := do
  let entries ← readEntries text.toList
  let draft ← entries.foldlM Draft.add {}
  return .table (toMembers draft.root)

end Toml

end WorkspaceWatch
