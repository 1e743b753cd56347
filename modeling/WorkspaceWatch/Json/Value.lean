import WorkspaceWatch.Json.Numeral

/-!
# JSON values and their compact text

A value keeps what its text says: the members of an object in order, repeated names included, and
numbers by their digits. `Json.render` writes a value without any blank. In a string it escapes the
quote, the backslash and the control characters; everything else stands for itself, so that no
rendered value holds a line feed.
-/

namespace WorkspaceWatch

/-- A JSON value. -/
inductive Json where
  | null
  | bool (b : Bool)
  | number (n : Numeral)
  | text (s : String)
  | array (items : List Json)
  | object (members : List (String × Json))
  deriving Repr

namespace Json

/-- A natural number. -/
def ofNat (n : Nat) : Json := .number (.ofNat n)

/-- An integer. -/
def ofInt (i : Int) : Json := .number (.ofInt i)

/-- The hexadecimal digit of a number below sixteen, in lower case. -/
def hexDigit (n : Nat) : Char := if n < 10 then Char.ofNat (48 + n) else Char.ofNat (87 + n)

/-- One character inside a rendered string. -/
def escapeChar (c : Char) : List Char :=
  if c = '"' then ['\\', '"']
  else if c = '\\' then ['\\', '\\']
  else if c = '\x08' then ['\\', 'b']
  else if c = '\x0c' then ['\\', 'f']
  else if c = '\n' then ['\\', 'n']
  else if c = '\r' then ['\\', 'r']
  else if c = '\t' then ['\\', 't']
  else if c.toNat < 32 then
    ['\\', 'u', '0', '0', hexDigit (c.toNat / 16), hexDigit (c.toNat % 16)]
  else [c]

/-- A string with its quotes. -/
def renderText (s : List Char) : List Char := '"' :: s.flatMap escapeChar ++ ['"']

mutual

/-- The compact text of a value. -/
def render : Json → List Char
  | .null => ['n', 'u', 'l', 'l']
  | .bool true => ['t', 'r', 'u', 'e']
  | .bool false => ['f', 'a', 'l', 's', 'e']
  | .number n => n.render
  | .text s => renderText s.toList
  | .array items => '[' :: renderItems items ++ [']']
  | .object members => '\x7b' :: renderMembers members ++ ['\x7d']

/-- The items of an array, with commas between. -/
def renderItems : List Json → List Char
  | [] => []
  | [v] => render v
  | v :: v' :: vs => render v ++ ',' :: renderItems (v' :: vs)

/-- The members of an object, with commas between. -/
def renderMembers : List (String × Json) → List Char
  | [] => []
  | [(k, v)] => renderText k.toList ++ ':' :: render v
  | (k, v) :: m :: ms => renderText k.toList ++ ':' :: render v ++ ',' :: renderMembers (m :: ms)

end

/-- The value of an object's member; of several with one name, the last. -/
def member? (name : String) : Json → Option Json
  | .object members => (members.reverse.find? fun m => m.1 = name).map Prod.snd
  | _ => none

end Json

end WorkspaceWatch
