import WorkspaceWatch.Json.Numeral
import WorkspaceWatch.Toml.Quoted
import WorkspaceWatch.Toml.Value

/-!
# TOML numbers, words and times

Everything that is written without marks around it: `true` and `false`, numbers, and dates and
times. An integer has 64 bits, and no decimal one begins with a zero; its digits may be grouped by
single underscores between them. A float may be infinite only by name.

A date and time may also be the whole of a text (`datetimeOfText?`), and then it may have a few more
forms.
-/

namespace WorkspaceWatch

namespace Toml

/-! ### Numbers -/

/-- More digits of a number, without the underscores between them. -/
def moreDigits (isDigit : Char → Bool) : List Char → Reading (List Char)
  | [] => .ok ([], [])
  | ['_'] => .error .malformed
  | '_' :: c :: s =>
    if isDigit c then (moreDigits isDigit s).map fun r => (c :: r.1, r.2) else .error .malformed
  | c :: s =>
    if isDigit c then (moreDigits isDigit s).map fun r => (c :: r.1, r.2) else .ok ([], c :: s)

/-- The digits of a number, of which there is at least one. -/
def someDigits (isDigit : Char → Bool) : List Char → Reading (List Char)
  | [] => .error .malformed
  | c :: s =>
    if isDigit c then (moreDigits isDigit s).map fun r => (c :: r.1, r.2) else .error .malformed

/-- The digits of a decimal number before its point. -/
def wholeDigits : List Char → Reading (List Char)
  | '0' :: s => .ok (['0'], s)
  | s => someDigits Char.isDigit s

/-- The number that digits spell in a base. -/
def valueIn (base : Nat) (ds : List Char) : Nat :=
  ds.foldl (fun n d => n * base + (Json.hexValue? d).getD 0) 0

/-- An integer, if it has no more than 64 bits. -/
def integer? (negative : Bool) (n : Nat) : Except Fault Toml :=
  if negative then if n ≤ twoTo 63 then .ok (.integer (-n)) else .error .malformed
  else if n < twoTo 63 then .ok (.integer n) else .error .malformed

/-- A number in a base other than ten. The text follows what announces the base. -/
def readInBase (base : Nat) (s : List Char) : Except Fault (Toml × List Char) := do
  let isDigit (c : Char) : Bool := (Json.hexValue? c).any (· < base)
  let (ds, s) ← someDigits isDigit s
  return (← integer? false (valueIn base ds), s)

/-- The power of ten of a float, zero if none is written. -/
def readPower : List Char → Reading (Option Int)
  | c :: s =>
    if c = 'e' ∨ c = 'E' then
      let (negative, s) : Bool × List Char :=
        match s with
        | '+' :: s => (false, s)
        | '-' :: s => (true, s)
        | s => (false, s)
      (someDigits Char.isDigit s).map fun r =>
        let n : Nat := Numeral.digitsValue r.1
        (some (if negative then -(n : Int) else n), r.2)
    else .ok (none, c :: s)
  | [] => .ok (none, [])

/-- A decimal number, after its sign. -/
def readDecimal (negative : Bool) (s : List Char) : Except Fault (Toml × List Char) := do
  let (whole, s) ← wholeDigits s
  let (fraction, s) ←
    match s with
    | '.' :: s => someDigits Char.isDigit s
    | s => .ok ([], s)
  let (power?, s) ← readPower s
  if fraction = [] ∧ power? = none then
    return (← integer? negative (Numeral.digitsValue whole), s)
  let x := Binary64.ofDecimal negative (Numeral.digitsValue (whole ++ fraction))
    (power?.getD 0 - fraction.length)
  if x = .infinite false then throw .malformed
  return (.float x, s)

/-- A number, after its sign. -/
def readNumber (negative : Bool) (s : List Char) : Reading Toml :=
  match s with
  | 'i' :: 'n' :: 'f' :: s => .ok (.float (.infinite negative), s)
  | 'n' :: 'a' :: 'n' :: s => .ok (.float .notANumber, s)
  | s => readDecimal negative s

/-! ### Dates and times -/

/-- A number of exactly so many digits between two bounds. -/
def fixedDigits (width low high : Nat) (s : List Char) : Reading Nat :=
  let ds := s.take width
  let n := Numeral.digitsValue ds
  if ds.length = width ∧ ds.all Char.isDigit ∧ low ≤ n ∧ n ≤ high then .ok (n, s.drop width)
  else .error .malformed

/-- The text after a character that has to come next. -/
def expect (c : Char) : List Char → Except Fault (List Char)
  | d :: s => if c = d then .ok s else .error .malformed
  | [] => .error .malformed

/-- How many days a month has. -/
def daysIn (year month : Nat) : Nat :=
  if month = 2 then if year % 4 = 0 ∧ (year % 100 ≠ 0 ∨ year % 400 = 0) then 29 else 28
  else if month = 4 ∨ month = 6 ∨ month = 9 ∨ month = 11 then 30
  else 31

/-- A date begins here. -/
def startsDate (s : List Char) : Bool := (s.take 4).all Char.isDigit && s[4]? = some '-'

/-- The greatest numbers that a time may be written with. -/
structure ClockLimits where
  hour : Nat
  offsetHour : Nat
  offsetMinute : Nat
  deriving DecidableEq, Repr

/-- What holds for a time in a document. -/
def ClockLimits.document : ClockLimits := ⟨23, 23, 59⟩

/-- What holds for a time that is the whole of a text. -/
def ClockLimits.text : ClockLimits := ⟨24, 99, 99⟩

/-- A time of the day begins here. -/
def startsTime (limits : ClockLimits) (s : List Char) : Bool :=
  (s.take 2).all Char.isDigit && s[2]? = some ':' &&
    Numeral.digitsValue (s.take 2) ≤ limits.hour

/-- A date. -/
def readDate (s : List Char) : Except Fault (Date × List Char) := do
  let (year, s) ← fixedDigits 4 0 9999 s
  let s ← expect '-' s
  let (month, s) ← fixedDigits 2 1 12 s
  let s ← expect '-' s
  let (day, s) ← fixedDigits 2 1 (daysIn year month) s
  return (⟨year, month, day⟩, s)

/-- The nanoseconds that the digits of a fraction spell; digits beyond them are dropped. -/
def nanoseconds (ds : List Char) : Nat :=
  let kept := ds.take 9
  Numeral.digitsValue kept * tenTo (9 - kept.length)

/-- A time of the day. The sixtieth second is a leap second. -/
def readTime (limits : ClockLimits) (s : List Char) : Except Fault (TimeOfDay × List Char) := do
  let (hour, s) ← fixedDigits 2 0 limits.hour s
  let s ← expect ':' s
  let (minute, s) ← fixedDigits 2 0 59 s
  let s ← expect ':' s
  let (second, s) ← fixedDigits 2 0 60 s
  match s with
  | '.' :: c :: s' =>
    if c.isDigit then
      return (⟨hour, minute, second, nanoseconds ((c :: s').takeWhile Char.isDigit)⟩,
        (c :: s').dropWhile Char.isDigit)
    else return (⟨hour, minute, second, 0⟩, s)
  | s => return (⟨hour, minute, second, 0⟩, s)

/-- An offset of at most a day, if one is written. -/
def readOffset (limits : ClockLimits) : List Char → Except Fault (Option TimeOffset × List Char)
  | [] => .ok (none, [])
  | c :: s =>
    if c = 'Z' ∨ c = 'z' then .ok (some .zero, s)
    else if c = '+' ∨ c = '-' then do
      let (hours, s) ← fixedDigits 2 0 limits.offsetHour s
      let s ← expect ':' s
      let (minutes, s) ← fixedDigits 2 0 limits.offsetMinute s
      let m : Int := hours * 60 + minutes
      if 24 * 60 < m then throw .malformed
      return (some (.minutes (if c = '-' then -m else m)), s)
    else .ok (none, c :: s)

/-- A date, and perhaps a time of that day with or without an offset. -/
def readDatetime (limits : ClockLimits) (s : List Char) :
    Except Fault (Datetime × List Char) := do
  let (date, s) ← readDate s
  match s with
  | c :: s' =>
    if (c = 'T' ∨ c = 't' ∨ c = ' ') ∧ startsTime limits s' then
      let (time, s) ← readTime limits s'
      let (offset?, s) ← readOffset limits s
      return ({ date? := some date, time? := some time, offset? }, s)
    else return ({ date? := some date }, s)
  | [] => return ({ date? := some date }, s)

/-- A time of the day, if one begins here, or else a date and perhaps a time of that day. -/
def readMoment (limits : ClockLimits) (s : List Char) : Except Fault (Datetime × List Char) :=
  if startsTime limits s then
    (readTime limits s).map fun r => ({ time? := some r.1 }, r.2)
  else readDatetime limits s

/-- The date or time that a whole text spells. -/
def datetimeOfText? (s : List Char) : Option Datetime :=
  match readMoment .text s with
  | .ok (d, []) => some d
  | _ => none

/-! ### Scalars -/

/-- The text after a word that has to come next. -/
def expectWord : List Char → List Char → Except Fault (List Char)
  | [], s => .ok s
  | c :: w, s => do expectWord w (← expect c s)

/-- A value without marks around it. -/
def readScalar (s : List Char) : Reading Toml :=
  if startsDate s || startsTime .document s then
    (readMoment .document s).map fun r => (.datetime r.1, r.2)
  else match s with
    | 't' :: s => (expectWord ['r', 'u', 'e'] s).map (.boolean true, ·)
    | 'f' :: s => (expectWord ['a', 'l', 's', 'e'] s).map (.boolean false, ·)
    | '+' :: s => readNumber false s
    | '-' :: s => readNumber true s
    | '0' :: 'x' :: s => readInBase 16 s
    | '0' :: 'o' :: s => readInBase 8 s
    | '0' :: 'b' :: s => readInBase 2 s
    | s => readNumber false s

end Toml

end WorkspaceWatch
