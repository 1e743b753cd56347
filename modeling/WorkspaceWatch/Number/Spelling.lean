import WorkspaceWatch.Json.Numeral

/-!
# Numbers as people spell them

The numbers that whole texts spell: digits with an optional sign, and for floating point also a
point, a power of ten and the words for what is not finite. There are no blanks and no underscores.
-/

namespace WorkspaceWatch

namespace Spelling

/-- The sign at the front, whether it is a minus, and the text after it. -/
def splitSign : List Char → Bool × List Char
  | '+' :: s => (false, s)
  | '-' :: s => (true, s)
  | s => (false, s)

/-- The number that digits spell. -/
def digits? (s : List Char) : Option Nat :=
  if s ≠ [] ∧ s.all Char.isDigit then some (Numeral.digitsValue s) else none

/-- A natural number below `2 ^ 64`. -/
def uint64? (s : List Char) : Option UInt64 :=
  let s :=
    match s with
    | '+' :: s => s
    | s => s
  match digits? s with
  | some n => if n < UInt64.size then some n.toUInt64 else none
  | none => none

/-- An integer of 64 bits. -/
def int64? (s : List Char) : Option Int :=
  let (negative, s) := splitSign s
  match digits? s with
  | some n =>
    if negative then if n ≤ twoTo 63 then some (-n) else none
    else if n < twoTo 63 then some n else none
  | none => none

/-- A floating point number without its sign. -/
def unsigned? (negative : Bool) (s : List Char) : Option Binary64 :=
  let whole := s.takeWhile Char.isDigit
  let s := s.dropWhile Char.isDigit
  let (fraction, s) : List Char × List Char :=
    match s with
    | '.' :: s => (s.takeWhile Char.isDigit, s.dropWhile Char.isDigit)
    | s => ([], s)
  let scaled (power : Int) : Binary64 :=
    .ofDecimal negative (Numeral.digitsValue (whole ++ fraction)) (power - fraction.length)
  if whole = [] ∧ fraction = [] then none
  else match s with
    | [] => some (scaled 0)
    | c :: s =>
      if c = 'e' ∨ c = 'E' then
        let (below, s) := splitSign s
        (digits? s).map fun n => scaled (if below then -(n : Int) else n)
      else none

/-- A floating point number. -/
def binary64? (s : List Char) : Option Binary64 :=
  let (negative, s) := splitSign s
  let word := String.ofList (s.map Char.toLower)
  if word = "inf" ∨ word = "infinity" then some (.infinite negative)
  else if word = "nan" then some .notANumber
  else unsigned? negative s

end Spelling

end WorkspaceWatch
