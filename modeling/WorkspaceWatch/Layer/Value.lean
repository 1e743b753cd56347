import WorkspaceWatch.Json.Value
import WorkspaceWatch.Number.Spelling
import WorkspaceWatch.Settings.Format
import WorkspaceWatch.Text.Lower
import WorkspaceWatch.Toml.Scalar

/-!
# Values of layers

Settings that are put together from several sources come as values of one kind, whatever the source.
They are not typed strictly: `Layer.Value.format` takes a value for what it can reasonably mean, so
that a number may be given as a text and a flag as a number.
-/

namespace WorkspaceWatch

namespace Layer

/-- A value that some source gives. -/
inductive Value where
  | null
  | boolean (b : Bool)
  | integer (i : Int)
  | float (x : Binary64)
  | text (s : String)
  | list (items : List Value)
  | table (members : List (String × Value))
  deriving Repr

namespace Value

/-! ### What values are taken for -/

/-- The flag that a word in any letter case stands for. -/
def flagOfWord? (s : String) : Option Bool :=
  let word := lower s
  if word = "true" ∨ word = "on" ∨ word = "yes" then some true
  else if word = "false" ∨ word = "off" ∨ word = "no" then some false
  else none

/-- A natural number below `2 ^ 64`: a fraction is rounded, and a floating point number out of range
goes to the nearest end. -/
def number? : Value → Option UInt64
  | boolean b => some (if b then 1 else 0)
  | integer i => if 0 ≤ i ∧ i < UInt64.size then some i.toNat.toUInt64 else none
  | float x => some (x.toNatClamped (UInt64.size - 1)).toUInt64
  | text s =>
    match flagOfWord? s with
    | some b => some (if b then 1 else 0)
    | none => Spelling.uint64? s.toList
  | _ => none

/-- A flag: every number but zero counts as set. -/
def flag? : Value → Option Bool
  | boolean b => some b
  | integer i => some (i ≠ 0)
  | float x => some !x.isZero
  | text s => if s = "1" then some true else if s = "0" then some false else flagOfWord? s
  | _ => none

/-- A text. -/
def text? : Value → Option String
  | boolean b => some (if b then "true" else "false")
  | integer i => some (toString i)
  | float x => some x.text
  | text s => some s
  | _ => none

/-- What values of layers are taken for. A record may also be given as the list of its fields in
order. -/
def format : Format Value where
  record? fields
    | .table members => some fun name => members.lookup name
    | .list items => some fun name => (fields.zip items).lookup name
    | _ => none
  number? := number?
  flag? := flag?
  texts?
    | .list items => items.mapM text?
    | _ => none

/-! ### Values of sources -/

/-- The name by which a table stands for a date or time: if its first member has that name, the
value of the member is the text of the date or time, and there is nothing else to the table. -/
def datetimeMark : String := "$__toml_private_datetime"

/-- The date or time for which a table stands, if it is marked, and `none` if that is not to be
read. -/
def marked? : List (String × Toml) → Option (Option Datetime)
  | (name, v) :: _ =>
    if name = datetimeMark then
      match v with
      | .text s => some (Toml.datetimeOfText? s.toList)
      | _ => some none
    else none
  | [] => none

/-- A date or time is a text in its standard form. -/
def ofDatetime (d : Datetime) : Value := text (String.ofList d.text)

mutual

/-- A TOML value, unless there is a marked table in it that stands for no date or time. -/
def ofToml? : Toml → Option Value
  | .text s => some (text s)
  | .integer i => some (integer i)
  | .float x => some (float x)
  | .boolean b => some (boolean b)
  | .datetime d => some (ofDatetime d)
  | .array items => (ofTomls? items).map list
  | .table members =>
    match marked? members with
    | some d? => d?.map ofDatetime
    | none => (ofTomlMembers? members).map table

/-- Some TOML values. -/
def ofTomls? : List Toml → Option (List Value)
  | [] => some []
  | v :: vs => do return (← ofToml? v) :: (← ofTomls? vs)

/-- The members of a TOML table. -/
def ofTomlMembers? : List (String × Toml) → Option (List (String × Value))
  | [] => some []
  | (name, v) :: ms => do return (name, ← ofToml? v) :: (← ofTomlMembers? ms)

end

/-- A number: an integer if it is written as one of 64 bits, and floating point otherwise. A zero
with a minus is not written as an integer. -/
def ofNumeral (n : Numeral) : Value :=
  let v := Numeral.digitsValue n.whole
  if n.fraction ≠ [] ∨ n.exponent? ≠ none then float n.toBinary64
  else if n.negative then
    if 0 < v ∧ v ≤ twoTo 63 then integer (-v) else float n.toBinary64
  else if v < twoTo 63 then integer v else float n.toBinary64

mutual

/-- A JSON value. Of the members of an object with one name, only the last counts. -/
def ofJson : Json → Value
  | .null => null
  | .bool b => boolean b
  | .number n => ofNumeral n
  | .text s => text s
  | .array items => list (ofJsons items)
  | .object members => table (ofJsonMembers members)

/-- Some JSON values. -/
def ofJsons : List Json → List Value
  | [] => []
  | v :: vs => ofJson v :: ofJsons vs

/-- The members of a JSON object. -/
def ofJsonMembers : List (String × Json) → List (String × Value)
  | [] => []
  | (name, v) :: ms =>
    if ms.any fun m => m.1 = name then ofJsonMembers ms else (name, ofJson v) :: ofJsonMembers ms

end

/-- What the text of a variable means: a flag, an integer or a floating point number if it spells
one, and otherwise itself. -/
def ofVariable (s : String) : Value :=
  if lower s = "true" then boolean true
  else if lower s = "false" then boolean false
  else match Spelling.int64? s.toList with
    | some i => integer i
    | none =>
      match Spelling.binary64? s.toList with
      | some x => float x
      | none => text s

end Value

end Layer

end WorkspaceWatch
