import WorkspaceWatch.Layer.Value

/-!
# Keys of layers

A key says where in a table a value goes. It is a name, then perhaps names of members of what that
name stands for, each after a point, and positions in lists, in brackets; a text of any other form
is one name. Names are in lower case, and a text is put in lower case before it is read.

`Value.set` puts a value at a key, making tables and lists of whatever is in the way. A table that
is put where there is a table already does not replace it: its members are put into it one by one.
A position counts from the end of a list if it is negative, and then it has to lie within the list.
-/

namespace WorkspaceWatch

namespace Layer

/-- A step from a value to one within it. -/
inductive Step where
  | member (name : String)
  /-- A position, counted from the end if it is negative. -/
  | item (index : Int)
  deriving DecidableEq, Repr

/-- Where a value goes. -/
structure Key where
  name : String
  steps : List Step := []
  deriving DecidableEq, Repr

namespace Key

/-- The character may stand in a name that is a part of a key. -/
def isNameChar (c : Char) : Bool := c.isAlphanum || c = '_' || c = '-' || c = ' '

/-- The position between brackets, and the text after the closing one. -/
def readIndex (s : List Char) : Option (Int × List Char) :=
  let isBlank (c : Char) : Bool := c = ' ' || c = '\t'
  let s := s.dropWhile isBlank
  let (sign, s) : List Char × List Char :=
    match s with
    | '-' :: s => (['-'], s)
    | s => ([], s)
  let digits := s.takeWhile Char.isDigit
  match (s.dropWhile Char.isDigit).dropWhile isBlank with
  | ']' :: s => (Spelling.int64? (sign ++ digits)).map fun i => (i, s)
  | _ => none

/-- The steps that a text spells, of which there are less than `fuel`. -/
def readSteps : (fuel : Nat) → List Char → Option (List Step)
  | _, [] => some []
  | fuel + 1, '.' :: s =>
    match s.takeWhile isNameChar with
    | [] => none
    | name => (readSteps fuel (s.dropWhile isNameChar)).map (.member (String.ofList name) :: ·)
  | fuel + 1, '[' :: s =>
    match readIndex s with
    | some (i, s) => (readSteps fuel s).map (.item i :: ·)
    | none => none
  | _, _ => none

/-- The key that a text spells. -/
def ofText (s : List Char) : Key :=
  let s := lowerText s
  match s.takeWhile isNameChar, readSteps s.length (s.dropWhile isNameChar) with
  | c :: cs, some steps => ⟨String.ofList (c :: cs), steps⟩
  | _, _ => ⟨String.ofList s, []⟩

end Key

/-- Why a value cannot be put where its key says. -/
inductive Misplacement where
  /-- Counted from the end of a list, the position lies before the first item. -/
  | beforeFirst
  /-- No list has room for so many items. -/
  | tooFar
  deriving DecidableEq, Repr

/-- What is said about a value that cannot be put where its key says. -/
def Misplacement.message : Misplacement → String
  | beforeFirst => "attempt to subtract with overflow"
  | tooFar => "capacity overflow"

namespace Value

/-- The members of a table. Other values have none. -/
def members : Value → List (String × Value)
  | table ms => ms
  | _ => []

/-- The items of a list. Other values have none. -/
def items : Value → List Value
  | list vs => vs
  | _ => []

/-- Gives the member `name` the value that `f` makes of the one it has. -/
def alter (name : String) (f : Option Value → Value) :
    List (String × Value) → List (String × Value)
  | [] => [(name, f none)]
  | (k, v) :: ms => if k = name then (k, f (some v)) :: ms else (k, v) :: alter name f ms

/-- Only the member `name` is another one. -/
theorem lookup_alter (name k : String) (f : Option Value → Value) (ms : List (String × Value)) :
    (alter name f ms).lookup k = if k = name then some (f (ms.lookup name)) else ms.lookup k := by
  have differ {a b : String} (h : ¬a = b) : (a == b) = false := beq_eq_false_iff_ne.2 h
  induction ms with
  | nil =>
    by_cases h : k = name
    · simp [alter, h]
    · simp [alter, List.lookup_cons, h, differ h]
  | cons m ms ih =>
    obtain ⟨k', v⟩ := m
    by_cases h' : k' = name
    · subst h'
      by_cases h : k = k'
      · simp [alter, h]
      · simp [alter, List.lookup_cons, h, differ h]
    · by_cases h : k = k'
      · subst h
        simp [alter, h']
      · simp [alter, List.lookup_cons, h', differ h, differ (Ne.symm h'), ih]

mutual

/-- Puts a value into a table as its member `name`. -/
def put (name : String) (v root : Value) : Value :=
  match v with
  | table incoming =>
    table (alter (lower name) (fun old? => putAll incoming (old?.getD (table []))) root.members)
  | v => table (alter (lower name) (fun _ => v) root.members)

/-- Puts values into a table as members of it. -/
def putAll : List (String × Value) → Value → Value
  | [], root => root
  | (name, v) :: ms, root => putAll ms (put name v root)

end

/-- How many items a list may come to have. -/
def maxItems : Nat := twoTo 24

/-- The position in a list of some length that a number stands for. -/
def position (index : Int) (length : Nat) : Except Misplacement Nat :=
  if index < 0 then
    if index.natAbs ≤ length then .ok (length - index.natAbs) else .error .beforeFirst
  else if index.toNat < maxItems then .ok index.toNat
  else .error .tooFar

/-- Puts a value at the end of some steps. A list that is too short is filled up. -/
def setAt : List Step → (v root : Value) → Except Misplacement Value
  | [], v, _ => .ok v
  | [.member name], v, root => .ok (put name v root)
  | .member name :: steps, v, root => do
    let inner ← setAt steps v ((root.members.lookup name).getD null)
    return table (alter name (fun _ => inner) root.members)
  | .item index :: steps, v, root => do
    let i ← position index root.items.length
    let filled := root.items ++ List.replicate (i + 1 - root.items.length) null
    return list (filled.set i (← setAt steps v (filled.getD i null)))

/-- Puts a value at a key. -/
def set (root : Value) (key : Key) (v : Value) : Except Misplacement Value :=
  setAt (.member key.name :: key.steps) v root

end Value

end Layer

end WorkspaceWatch
