import WorkspaceWatch.Json.Value
import WorkspaceWatch.Settings.Format

/-!
# Settings as JSON

`Settings.ofJson?` takes a JSON value for settings. Every value must have exactly its type, and
numbers are written as digits alone.
-/

namespace WorkspaceWatch

namespace Json

/-- What JSON values are taken for. A record may also be written as the array of its fields in
order, which then holds nothing else. -/
def format : Format Json where
  record? fields
    | .object members => some fun name => (Json.object members).member? name
    | .array items =>
      if items.length ≤ fields.length then some fun name => (fields.zip items).lookup name else none
    | _ => none
  number?
    | .number n =>
      let v := Numeral.digitsValue n.whole
      if !n.negative ∧ n.fraction = [] ∧ n.exponent? = none ∧ v < UInt64.size then some v.toUInt64
      else none
    | _ => none
  flag?
    | .bool b => some b
    | _ => none
  texts?
    | .array items => items.mapM fun
      | .text s => some s
      | _ => none
    | _ => none

end Json

/-- The settings that a JSON value gives. -/
def Settings.ofJson? (v : Json) : Option Settings := Json.format.settings? v

end WorkspaceWatch
