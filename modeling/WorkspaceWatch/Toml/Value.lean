import WorkspaceWatch.Number.Binary64

/-!
# TOML values

The values of a TOML document. Dates and times keep what was written, to the nanosecond, and
`Datetime.text` writes them in the standard form.
-/

namespace WorkspaceWatch

/-- A day of the calendar. -/
structure Date where
  year : Nat
  month : Nat
  day : Nat
  deriving DecidableEq, Repr

/-- A time of the day. -/
structure TimeOfDay where
  hour : Nat
  minute : Nat
  second : Nat
  nanosecond : Nat := 0
  deriving DecidableEq, Repr

/-- How far a time is ahead of universal time. -/
inductive TimeOffset where
  | zero
  | minutes (m : Int)
  deriving DecidableEq, Repr

/-- A date, a time of the day, or both, and then perhaps with an offset. -/
structure Datetime where
  date? : Option Date := none
  time? : Option TimeOfDay := none
  offset? : Option TimeOffset := none
  deriving DecidableEq, Repr

/-- A TOML value. -/
inductive Toml where
  | text (s : String)
  | integer (i : Int)
  | float (x : Binary64)
  | boolean (b : Bool)
  | datetime (d : Datetime)
  | array (items : List Toml)
  | table (members : List (String × Toml))
  deriving Repr

/-- A number with at least so many digits. -/
def padded (width n : Nat) : List Char :=
  let ds := Nat.toDigits 10 n
  List.replicate (width - ds.length) '0' ++ ds

/-- The standard form of a day. -/
def Date.text (d : Date) : List Char :=
  padded 4 d.year ++ '-' :: padded 2 d.month ++ '-' :: padded 2 d.day

/-- The standard form of a time of the day: of a fraction, the digits up to the last that is not
zero. -/
def TimeOfDay.text (t : TimeOfDay) : List Char :=
  padded 2 t.hour ++ ':' :: padded 2 t.minute ++ ':' :: padded 2 t.second ++
    if t.nanosecond = 0 then []
    else '.' :: ((padded 9 t.nanosecond).reverse.dropWhile (· = '0')).reverse

/-- The standard form of an offset. -/
def TimeOffset.text : TimeOffset → List Char
  | zero => ['Z']
  | minutes m =>
    (if m < 0 then '-' else '+') :: padded 2 (m.natAbs / 60) ++ ':' :: padded 2 (m.natAbs % 60)

/-- The standard form of a date and time. -/
def Datetime.text (d : Datetime) : List Char :=
  (match d.date? with
    | some date => date.text
    | none => []) ++
  (match d.time? with
    | some time => (if d.date?.isSome then ['T'] else []) ++ time.text
    | none => []) ++
  (match d.offset? with
    | some offset => offset.text
    | none => [])

end WorkspaceWatch
