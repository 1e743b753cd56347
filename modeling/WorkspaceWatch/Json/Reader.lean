import WorkspaceWatch.Json.Value
import WorkspaceWatch.Text.Utf8

/-!
# Reading JSON

A reader works through the text from left to right and stops at the first fault: text that is not
JSON is `malformed`, text that ends too early is `unfinished`, and a value of the wrong shape is
`mismatched` (`WorkspaceWatch.Json.Decode` reads values of a fixed shape).

Most parts come in two forms. A value that is wanted must make sense: its numbers lie in the range
of binary floating point, its escapes name characters, and it is not nested too deeply. A value
that is only passed over has to be well-formed and nothing more.
-/

namespace WorkspaceWatch

namespace Json

/-- Why a text could not be read. -/
inductive Fault where
  /-- The text is not JSON. -/
  | malformed
  /-- The text ends within a value. -/
  | unfinished
  /-- A value does not have the shape that is asked for. -/
  | mismatched
  deriving DecidableEq, Repr

/-- What was read, and the text after it. -/
abbrev Reading (α : Type) := Except Fault (α × List Char)

/-- The four blank characters. -/
def isBlank (c : Char) : Bool := c = ' ' || c = '\n' || c = '\t' || c = '\r'

/-- The text from the first character that is not blank. -/
def skipBlank (s : List Char) : List Char := s.dropWhile isBlank

/-- The digits at the front and the text after them. -/
def digits (s : List Char) : List Char × List Char :=
  (s.takeWhile Char.isDigit, s.dropWhile Char.isDigit)

/-- The rest of a word whose first letter was seen. -/
def expectWord : List Char → List Char → Except Fault (List Char)
  | [], s => .ok s
  | _ :: _, [] => .error .unfinished
  | c :: w, d :: s => if c = d then expectWord w s else .error .malformed

/-! ### Numbers -/

/-- The fault of a number that lacks a digit before `s`. A number that is passed over is judged by
what was read alone. -/
def missingDigit (wanted : Bool) (s : List Char) : Fault :=
  if wanted && s.isEmpty then .unfinished else .malformed

/-- The fraction after the whole part: no digits if there is no point. -/
def readFraction (wanted : Bool) : List Char → Reading (List Char)
  | '.' :: s =>
    let (ds, s') := digits s
    if ds = [] then .error (missingDigit wanted s') else .ok (ds, s')
  | s => .ok ([], s)

/-- The power of ten after the digits, if there is one. -/
def readExponent (wanted : Bool) : List Char → Reading (Option Int)
  | [] => .ok (none, [])
  | c :: s =>
    if c = 'e' ∨ c = 'E' then
      let (negative, s) : Bool × List Char :=
        match s with
        | '+' :: s' => (false, s')
        | '-' :: s' => (true, s')
        | s => (false, s)
      let (ds, s') := digits s
      if ds = [] then .error (missingDigit wanted s')
      else
        let e : Int := Numeral.digitsValue ds
        .ok (some (if negative then -e else e), s')
    else .ok (none, c :: s)

/-- A number without its sign: no zero may stand before another digit. -/
def readUnsigned (wanted negative : Bool) (s : List Char) :
    Except Fault (Numeral × List Char) := do
  let (whole, s) ←
    match s with
    | [] => .error (missingDigit wanted [])
    | '0' :: s' =>
      if s'.head?.any Char.isDigit then .error .malformed else .ok (['0'], s')
    | c :: s' => if c.isDigit then .ok (digits (c :: s')) else .error .malformed
  let (fraction, s) ← readFraction wanted s
  let (exponent?, s) ← readExponent wanted s
  return (⟨negative, whole, fraction, exponent?⟩, s)

/-- A number. -/
def readNumeral (wanted : Bool) : List Char → Reading Numeral
  | '-' :: s => readUnsigned wanted true s
  | s => readUnsigned wanted false s

/-! ### Strings -/

/-- The value of a hexadecimal digit. -/
def hexValue? (c : Char) : Option Nat :=
  if '0' ≤ c ∧ c ≤ '9' then some (c.toNat - 48)
  else if 'a' ≤ c ∧ c ≤ 'f' then some (c.toNat - 87)
  else if 'A' ≤ c ∧ c ≤ 'F' then some (c.toNat - 55)
  else none

/-- The four hexadecimal digits of an escape. Text with less than four bytes left is unfinished,
whatever they are. -/
def readHex4 (s : List Char) : Except Fault Nat :=
  match (s.take 4).mapM hexValue? with
  | some [a, b, c, d] => .ok (((a * 16 + b) * 16 + c) * 16 + d)
  | _ => .error (if (Utf8.encode (s.take 4)).length < 4 then .unfinished else .malformed)

/-- The code unit is the first half of a pair. -/
def isHighHalf (n : Nat) : Bool := 0xD800 ≤ n && n ≤ 0xDBFF

/-- The code unit is the second half of a pair. -/
def isLowHalf (n : Nat) : Bool := 0xDC00 ≤ n && n ≤ 0xDFFF

/-- The character of an escape by number, and how many characters of `s`, which follows the `u`,
belong to it. A half of a pair that is passed over may stand alone. -/
def readUnicodeEscape (wanted : Bool) (s : List Char) : Except Fault (Char × Nat) := do
  let n ← readHex4 s
  if !wanted then return (Char.ofNat n, 4)
  if isLowHalf n then throw .malformed
  if isHighHalf n then
    match s.drop 4 with
    | [] => throw .unfinished
    | ['\\'] => throw .unfinished
    | '\\' :: 'u' :: s' =>
      let m ← readHex4 s'
      if isLowHalf m then
        return (Char.ofNat (0x10000 + (n - 0xD800) * 1024 + (m - 0xDC00)), 10)
      else throw .malformed
    | _ => throw .malformed
  else return (Char.ofNat n, 4)

/-- The character of an escape, and how many characters of `s`, which follows the backslash, belong
to it. -/
def readEscape (wanted : Bool) : List Char → Except Fault (Char × Nat)
  | [] => .error .unfinished
  | '"' :: _ => .ok ('"', 1)
  | '\\' :: _ => .ok ('\\', 1)
  | '/' :: _ => .ok ('/', 1)
  | 'b' :: _ => .ok ('\x08', 1)
  | 'f' :: _ => .ok ('\x0c', 1)
  | 'n' :: _ => .ok ('\n', 1)
  | 'r' :: _ => .ok ('\r', 1)
  | 't' :: _ => .ok ('\t', 1)
  | 'u' :: s => (readUnicodeEscape wanted s).map fun r => (r.1, r.2 + 1)
  | _ => .error .malformed

/-- The rest of a string, after its opening quote. -/
def readText (wanted : Bool) : List Char → Reading (List Char)
  | [] => .error .unfinished
  | '"' :: s => .ok ([], s)
  | '\\' :: s =>
    match readEscape wanted s with
    | .error e => .error e
    | .ok (c, n) =>
      match readText wanted (s.drop n) with
      | .error e => .error e
      | .ok (cs, s') => .ok (c :: cs, s')
  | c :: s =>
    if c.toNat < 32 then .error .malformed
    else match readText wanted s with
      | .error e => .error e
      | .ok (cs, s') => .ok (c :: cs, s')
  termination_by s => s.length
  decreasing_by all_goals simp; try omega

/-! ### Values -/

/-- How deeply a wanted value may be nested. -/
def maxDepth : Nat := 127

mutual

/-- A value, nested at most `depth` deep if it is wanted. The text is shorter than `fuel`. -/
def readValue (wanted : Bool) : (fuel depth : Nat) → List Char → Reading Json
  | 0, _, _ => .error .unfinished
  | fuel + 1, depth, s =>
    match skipBlank s with
    | [] => .error .unfinished
    | 'n' :: s => (expectWord ['u', 'l', 'l'] s).map (.null, ·)
    | 't' :: s => (expectWord ['r', 'u', 'e'] s).map (.bool true, ·)
    | 'f' :: s => (expectWord ['a', 'l', 's', 'e'] s).map (.bool false, ·)
    | '"' :: s => (readText wanted s).map fun r => (.text (String.ofList r.1), r.2)
    | '[' :: s =>
      if wanted && depth = 0 then .error .malformed
      else match skipBlank s with
        | [] => .error .unfinished
        | ']' :: s => .ok (.array [], s)
        | s => (readItems wanted fuel (depth - 1) s).map fun r => (.array r.1, r.2)
    | '\x7b' :: s =>
      if wanted && depth = 0 then .error .malformed
      else match skipBlank s with
        | [] => .error .unfinished
        | '\x7d' :: s => .ok (.object [], s)
        | s => (readMembers wanted fuel (depth - 1) s).map fun r => (.object r.1, r.2)
    | c :: s =>
      if c = '-' ∨ c.isDigit then
        match readNumeral wanted (c :: s) with
        | .error e => .error e
        | .ok (n, s) =>
          if wanted && !n.inRange then .error .malformed else .ok (.number n, s)
      else .error .malformed

/-- The items of an array, of which there is at least one, and the closing bracket. -/
def readItems (wanted : Bool) : (fuel depth : Nat) → List Char → Reading (List Json)
  | 0, _, _ => .error .unfinished
  | fuel + 1, depth, s =>
    match readValue wanted fuel depth s with
    | .error e => .error e
    | .ok (v, s) =>
      match skipBlank s with
      | [] => .error .unfinished
      | ']' :: s => .ok ([v], s)
      | ',' :: s => (readItems wanted fuel depth s).map fun r => (v :: r.1, r.2)
      | _ => .error .malformed

/-- The members of an object, of which there is at least one, and the closing brace. -/
def readMembers (wanted : Bool) : (fuel depth : Nat) → List Char → Reading (List (String × Json))
  | 0, _, _ => .error .unfinished
  | fuel + 1, depth, s =>
    match skipBlank s with
    | [] => .error .unfinished
    | '"' :: s =>
      match readText wanted s with
      | .error e => .error e
      | .ok (name, s) =>
        match skipBlank s with
        | [] => .error .unfinished
        | ':' :: s =>
          match readValue wanted fuel depth s with
          | .error e => .error e
          | .ok (v, s) =>
            match skipBlank s with
            | [] => .error .unfinished
            | '\x7d' :: s => .ok ([(String.ofList name, v)], s)
            | ',' :: s =>
              (readMembers wanted fuel depth s).map fun r => ((String.ofList name, v) :: r.1, r.2)
            | _ => .error .malformed
        | _ => .error .malformed
    | _ => .error .malformed

end

/-- The value that a whole text spells. -/
def parse (text : String) : Except Fault Json := do
  let s := text.toList
  let (v, s) ← readValue true (2 * s.length + 2) maxDepth s
  if skipBlank s = [] then return v else throw .malformed

end Json

end WorkspaceWatch
