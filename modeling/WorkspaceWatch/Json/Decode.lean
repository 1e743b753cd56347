import WorkspaceWatch.Json.Reader

/-!
# Decoding JSON of a fixed shape

Decoders for texts, numbers, lists, enumerations and records. A record may be written as an object,
whose members may come in any order and whose unknown members are passed over, or as an array of
its fields in order. Of several faults in a text, the one that is met first from the left is
reported: a member that is given twice is refused before its second value is looked at, and a
member that is missing only at the closing brace.
-/

namespace WorkspaceWatch

namespace Json

/-- Reads a value of one shape from the front of a text. -/
abbrev Decoder (α : Type) := List Char → Reading α

/-- The fault of a value of another shape. Words, numbers and strings are read to their end first,
so that a broken one is reported as such. The text starts with the value. -/
def wrongShape (s : List Char) : Fault :=
  let after (r : Except Fault Unit) : Fault :=
    match r with
    | .ok _ => .mismatched
    | .error e => e
  match s with
  | [] => .unfinished
  | 'n' :: s => after ((expectWord ['u', 'l', 'l'] s).map fun _ => ())
  | 't' :: s => after ((expectWord ['r', 'u', 'e'] s).map fun _ => ())
  | 'f' :: s => after ((expectWord ['a', 'l', 's', 'e'] s).map fun _ => ())
  | '"' :: s => after ((readText true s).map fun _ => ())
  | '[' :: _ => .mismatched
  | '\x7b' :: _ => .mismatched
  | c :: s =>
    if c = '-' ∨ c.isDigit then
      match readNumeral true (c :: s) with
      | .error e => e
      | .ok (n, _) => if n.inRange then .mismatched else .malformed
    else .malformed

/-- A string. -/
def decodeText : Decoder String := fun s =>
  match skipBlank s with
  | [] => .error .unfinished
  | '"' :: s => (readText true s).map fun r => (String.ofList r.1, r.2)
  | s => .error (wrongShape s)

/-- A natural number below `2 ^ 64`. -/
def decodeUInt64 : Decoder UInt64 := fun s =>
  match skipBlank s with
  | [] => .error .unfinished
  | c :: s =>
    if c = '-' ∨ c.isDigit then
      match readNumeral true (c :: s) with
      | .error e => .error e
      | .ok (n, s) =>
        if !n.inRange then .error .malformed
        else if n.negative ∨ n.fraction ≠ [] ∨ n.exponent? ≠ none then .error .mismatched
        else
          let v := Numeral.digitsValue n.whole
          if v < UInt64.size then .ok (v.toUInt64, s) else .error .mismatched
    else .error (wrongShape (c :: s))

/-- The word `null`. -/
def decodeNull : Decoder Unit := fun s =>
  match skipBlank s with
  | [] => .error .unfinished
  | 'n' :: s => (expectWord ['u', 'l', 'l'] s).map ((), ·)
  | s => .error (wrongShape s)

/-- The text after the next character that is not blank, which must be `c`. -/
def expectChar (c : Char) (s : List Char) : Except Fault (List Char) :=
  match skipBlank s with
  | [] => .error .unfinished
  | d :: s => if c = d then .ok s else .error .malformed

/-- Goes to the next item of a list, over the comma before it; `none` at the closing mark. -/
def nextItem (close : Char) (isFirst : Bool) (s : List Char) :
    Except Fault (Option (List Char)) :=
  match skipBlank s with
  | [] => .error .unfinished
  | c :: s =>
    if c = close then .ok none
    else if isFirst then .ok (some (c :: s))
    else if c = ',' then
      match skipBlank s with
      | [] => .error .unfinished
      | d :: s => if d = close then .error .malformed else .ok (some (d :: s))
    else .error .malformed

/-- The items of a list up to its closing bracket. The text is shorter than `fuel`. -/
def decodeItems {α : Type} (item : Decoder α) : (fuel : Nat) → (isFirst : Bool) →
    Decoder (List α)
  | 0, _, _ => .error .unfinished
  | fuel + 1, isFirst, s =>
    match nextItem ']' isFirst s with
    | .error e => .error e
    | .ok none => (expectChar ']' s).map ([], ·)
    | .ok (some s) =>
      match item s with
      | .error e => .error e
      | .ok (v, s) => (decodeItems item fuel false s).map fun r => (v :: r.1, r.2)

/-- A list. -/
def decodeList {α : Type} (item : Decoder α) : Decoder (List α) := fun s =>
  match skipBlank s with
  | [] => .error .unfinished
  | '[' :: s => decodeItems item (s.length + 1) true s
  | s => .error (wrongShape s)

/-- One of a few names: as a string, or as an object that gives the name the value `null`. -/
def decodeName {α : Type} (names : List (String × α)) : Decoder α := fun s =>
  let find (name : String) : Except Fault α :=
    match names.find? fun n => n.1 = name with
    | some n => .ok n.2
    | none => .error .mismatched
  match skipBlank s with
  | [] => .error .unfinished
  | '"' :: s =>
    match readText true s with
    | .error e => .error e
    | .ok (name, s) => (find (String.ofList name)).map (·, s)
  | '\x7b' :: s =>
    match skipBlank s with
    | [] => .error .unfinished
    | '"' :: s =>
      match readText true s with
      | .error e => .error e
      | .ok (name, s) =>
        match find (String.ofList name) with
        | .error e => .error e
        | .ok v =>
          match expectChar ':' s with
          | .error e => .error e
          | .ok s =>
            match decodeNull s with
            | .error e => .error e
            | .ok (_, s) => (expectChar '\x7d' s).map (v, ·)
    | _ => .error .malformed
  | _ => .error .malformed

/-! ### Records -/

/-- A field of a record that is read into a state of type `σ`. -/
structure RecordField (σ : Type) where
  name : String
  isFilled : σ → Bool
  fill : σ → Decoder σ

/-- The fields in order, as the items of an array, and its closing bracket. -/
def decodeInOrder {σ : Type} : (fields : List (RecordField σ)) → (isFirst : Bool) → σ → Decoder σ
  | [], _, st, s => (expectChar ']' s).map (st, ·)
  | f :: fs, isFirst, st, s =>
    match nextItem ']' isFirst s with
    | .error e => .error e
    | .ok none => .error .mismatched
    | .ok (some s) =>
      match f.fill st s with
      | .error e => .error e
      | .ok (st, s) => decodeInOrder fs false st s

/-- The value of a member whose name has been read. -/
def decodeMember {σ : Type} (fields : List (RecordField σ)) (name : String) (st : σ) : Decoder σ :=
  fun s =>
    match fields.find? fun f => f.name = name with
    | some f =>
      if f.isFilled st then .error .mismatched
      else match expectChar ':' s with
        | .error e => .error e
        | .ok s => f.fill st s
    | none =>
      match expectChar ':' s with
      | .error e => .error e
      | .ok s => (readValue false (2 * s.length + 2) 0 s).map fun r => (st, r.2)

/-- The members of an object up to its closing brace. The text is shorter than `fuel`. -/
def decodeMembers {σ : Type} (fields : List (RecordField σ)) : (fuel : Nat) → (isFirst : Bool) →
    σ → Decoder σ
  | 0, _, _, _ => .error .unfinished
  | fuel + 1, isFirst, st, s =>
    match nextItem '\x7d' isFirst s with
    | .error e => .error e
    | .ok none =>
      if fields.all (·.isFilled st) then (expectChar '\x7d' s).map (st, ·)
      else .error .mismatched
    | .ok (some ('"' :: s)) =>
      match readText true s with
      | .error e => .error e
      | .ok (name, s) =>
        match decodeMember fields (String.ofList name) st s with
        | .error e => .error e
        | .ok (st, s) => decodeMembers fields fuel false st s
    | .ok (some _) => .error .malformed

/-- A record, read into the state `st`, in which no field is filled. -/
def decodeRecord {σ : Type} (fields : List (RecordField σ)) (st : σ) : Decoder σ := fun s =>
  match skipBlank s with
  | [] => .error .unfinished
  | '[' :: s => decodeInOrder fields true st s
  | '\x7b' :: s => decodeMembers fields (s.length + 1) true st s
  | s => .error (wrongShape s)

/-- Decodes a whole text. -/
def decode {α : Type} (d : Decoder α) (text : String) : Except Fault α :=
  match d text.toList with
  | .error e => .error e
  | .ok (v, s) => if skipBlank s = [] then .ok v else .error .malformed

end Json

end WorkspaceWatch
