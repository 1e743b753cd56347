import WorkspaceWatch.Toml.Scalar

/-!
# TOML line by line

A document is a sequence of **entries**: a header, which names the table that what follows belongs
to, or a pair of a key and a value. `readEntries` reads them all. What tables they make is another
matter (`WorkspaceWatch.Toml.Document`), but the tables written within braces are complete by
themselves and are built here.
-/

namespace WorkspaceWatch

namespace Toml

/-- How many names a key may have, and how deep values may be nested, at least two of each being
too many. -/
def depthLimit : Nat := 80

/-! ### Blanks, comments and line ends -/

/-- The text after a comment, if it starts with one. -/
def skipComment (s : List Char) : List Char :=
  match s with
  | '#' :: s => s.dropWhile Quoted.isPlain
  | s => s

theorem length_skipComment_le (s : List Char) : (skipComment s).length ≤ s.length := by
  unfold skipComment
  split
  · exact Nat.le_succ_of_le (List.dropWhile_sublist _).length_le
  · exact Nat.le_refl _

/-- The text after blanks, comments and line ends. -/
def skipFiller (s : List Char) : List Char :=
  match _h : Quoted.afterLineEnd? (skipComment (Quoted.skipBlank s)) with
  | some t => skipFiller t
  | none => skipComment (Quoted.skipBlank s)
  termination_by s.length
  decreasing_by
    exact Nat.lt_of_lt_of_le (Quoted.length_afterLineEnd _h)
      (Nat.le_trans (length_skipComment_le _) (Quoted.length_skipBlank_le s))

/-- The text after the end of a line that may only hold a comment any more. -/
def endOfLine (s : List Char) : Except Fault (List Char) :=
  match skipComment (Quoted.skipBlank s) with
  | [] => .ok []
  | s =>
    match Quoted.afterLineEnd? s with
    | some t => .ok t
    | none => .error .malformed

/-! ### Keys -/

/-- The character may stand in a name without marks. -/
def isBare (c : Char) : Bool := c.isAlphanum || c = '-' || c = '_'

/-- One name of a key. -/
def readName (s : List Char) : Reading String :=
  match s with
  | '"' :: s => (Quoted.readSingle '"' s).map fun r => (String.ofList r.1, r.2)
  | '\'' :: s => (Quoted.readSingle '\'' s).map fun r => (String.ofList r.1, r.2)
  | s =>
    match s.takeWhile isBare with
    | [] => .error .malformed
    | name => .ok (String.ofList name, s.dropWhile isBare)

/-- The names of a key, of which there are at most `fuel`, with blanks around each. -/
def readNames : (fuel : Nat) → List Char → Reading (List String)
  | 0, _ => .error .tooDeep
  | fuel + 1, s =>
    match readName (Quoted.skipBlank s) with
    | .error e => .error e
    | .ok (name, s) =>
      match Quoted.skipBlank s with
      | '.' :: s => (readNames fuel s).map fun r => (name :: r.1, r.2)
      | s => .ok ([name], s)

/-- A key. -/
def readKey (s : List Char) : Reading (List String) := readNames (depthLimit - 1) s

/-! ### Tables within braces -/

/-- A table that is being written within braces. Only a table that was made by dotted keys can be
added to by other dotted keys. -/
inductive Inline where
  | value (v : Toml)
  | dotted (members : List (String × Inline))

/-- Gives the member `name` of a table what `f` makes of it. -/
def alterMember {α : Type} (name : String) (f : Option α → Except Fault α) :
    List (String × α) → Except Fault (List (String × α))
  | [] => (f none).map fun v => [(name, v)]
  | (k, v) :: ms =>
    if k = name then (f (some v)).map fun v => (k, v) :: ms
    else (alterMember name f ms).map ((k, v) :: ·)

/-- Adds a pair to a table within braces. -/
def Inline.add (v : Toml) : (path : List String) → List (String × Inline) →
    Except Fault (List (String × Inline))
  | [], ms => .ok ms
  | [name], ms =>
    alterMember name (fun old? => if old?.isNone then .ok (.value v) else .error (.duplicate name))
      ms
  | name :: path, ms =>
    alterMember name (fun
      | none => (add v path []).map .dotted
      | some (.dotted inner) => (add v path inner).map .dotted
      | some (.value _) => .error (.notTable name)) ms

mutual

/-- What was written within braces, as a value. -/
def Inline.toToml : Inline → Toml
  | .value v => v
  | .dotted members => .table (Inline.toMembers members)

/-- The members of a table within braces. -/
def Inline.toMembers : List (String × Inline) → List (String × Toml)
  | [] => []
  | (name, v) :: ms => (name, v.toToml) :: Inline.toMembers ms

end

/-- The table that pairs within braces make. -/
def ofPairs (pairs : List (List String × Toml)) : Except Fault Toml :=
  (pairs.foldlM (fun ms pair => Inline.add pair.2 pair.1 ms) []).map fun ms =>
    .table (Inline.toMembers ms)

/-! ### Values -/

mutual

/-- A value, nested at most `depth` deep. The text is shorter than `fuel`. -/
def readValue : (fuel depth : Nat) → List Char → Reading Toml
  | 0, _, _ => .error .malformed
  | fuel + 1, depth, s =>
    match s with
    | '"' :: s => (Quoted.read '"' s).map fun r => (.text (String.ofList r.1), r.2)
    | '\'' :: s => (Quoted.read '\'' s).map fun r => (.text (String.ofList r.1), r.2)
    | '[' :: s =>
      if depth = 0 then .error .tooDeep
      else (readItems fuel (depth - 1) s).map fun r => (.array r.1, r.2)
    | '\x7b' :: s =>
      if depth = 0 then .error .tooDeep
      else match Quoted.skipBlank s with
        | '\x7d' :: s => .ok (.table [], s)
        | s =>
          match readPairs fuel (depth - 1) s with
          | .error e => .error e
          | .ok (pairs, s) => (ofPairs pairs).map (·, s)
    | s => readScalar s

/-- The items of an array, and its closing bracket. -/
def readItems : (fuel depth : Nat) → List Char → Reading (List Toml)
  | 0, _, _ => .error .malformed
  | fuel + 1, depth, s =>
    match skipFiller s with
    | ']' :: s => .ok ([], s)
    | s =>
      match readValue fuel depth s with
      | .error e => .error e
      | .ok (v, s) =>
        match skipFiller s with
        | ',' :: s => (readItems fuel depth s).map fun r => (v :: r.1, r.2)
        | ']' :: s => .ok ([v], s)
        | _ => .error .malformed

/-- The pairs within braces, of which there is at least one, and the closing brace. -/
def readPairs : (fuel depth : Nat) → List Char → Reading (List (List String × Toml))
  | 0, _, _ => .error .malformed
  | fuel + 1, depth, s =>
    match readKey s with
    | .error e => .error e
    | .ok (key, '=' :: s) =>
      match readValue fuel depth (Quoted.skipBlank s) with
      | .error e => .error e
      | .ok (v, s) =>
        match Quoted.skipBlank s with
        | ',' :: s => (readPairs fuel depth s).map fun r => ((key, v) :: r.1, r.2)
        | '\x7d' :: s => .ok ([(key, v)], s)
        | _ => .error .malformed
    | .ok _ => .error .malformed

end

/-! ### Entries -/

/-- An entry of a document. -/
inductive Entry where
  /-- What follows belongs to this table. -/
  | table (path : List String)
  /-- What follows belongs to a new table at the end of this array. -/
  | arrayItem (path : List String)
  | pair (path : List String) (v : Toml)

/-- The first entry of a text, and the text after its line. -/
def readEntry (s : List Char) : Except Fault (Entry × List Char) := do
  match s with
  | '[' :: '[' :: s =>
    let (path, s) ← readKey s
    match s with
    | ']' :: ']' :: s => return (.arrayItem path, ← endOfLine s)
    | _ => throw .malformed
  | '[' :: s =>
    let (path, s) ← readKey s
    match s with
    | ']' :: s => return (.table path, ← endOfLine s)
    | _ => throw .malformed
  | s =>
    let (path, s) ← readKey s
    match s with
    | '=' :: s =>
      let (v, s) ← readValue (2 * s.length + 2) (depthLimit - 1) (Quoted.skipBlank s)
      return (.pair path v, ← endOfLine s)
    | _ => throw .malformed

/-- The entries of a text, of which there are less than `fuel`. -/
def readEntriesWithin : (fuel : Nat) → List Char → Except Fault (List Entry)
  | 0, _ => .error .malformed
  | fuel + 1, s =>
    match skipFiller s with
    | [] => .ok []
    | s =>
      match readEntry s with
      | .error e => .error e
      | .ok (entry, s) => (readEntriesWithin fuel s).map (entry :: ·)

/-- The entries of a whole text. A byte order mark at its front does not count. -/
def readEntries (text : List Char) : Except Fault (List Entry) :=
  let s :=
    match text with
    | '\uFEFF' :: s => s
    | s => s
  readEntriesWithin (s.length + 1) s

end Toml

end WorkspaceWatch
