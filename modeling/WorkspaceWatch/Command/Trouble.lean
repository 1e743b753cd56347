import WorkspaceWatch.Failure

/-!
# Trouble

What the program reports when it cannot go on: a headline and the causes behind it. A single cause
is indented; if there are several, they are numbered from zero. A panic is reported by its message
alone and has an exit status of its own.
-/

namespace WorkspaceWatch

/-- Why the program cannot go on. -/
structure Trouble where
  headline : String
  /-- What lies behind it, the nearest first. -/
  causes : List String := []
  /-- The program has panicked, and the headline says why. -/
  isPanic : Bool := false
  deriving DecidableEq, Repr

namespace Trouble

/-- A failure as it is. -/
def ofFailure (f : Failure) : Trouble := { headline := f.message, causes := f.causes }

/-- A failure, and what the program was about. -/
def ofFailureIn (doing : String) (f : Failure) : Trouble :=
  { headline := doing, causes := f.message :: f.causes }

/-- The exit status of the program. -/
def code (t : Trouble) : Nat := if t.isPanic then 101 else 1

/-- The text with so many spaces after every line end. -/
def indented (width : Nat) (s : List Char) : List Char :=
  s.flatMap fun c => if c = '\n' then '\n' :: List.replicate width ' ' else [c]

/-- A line break and a cause, which has the given number if there are several. -/
def causeText (several : Bool) (number : Nat) (cause : String) : List Char :=
  if several then
    let digits := Nat.toDigits 10 number
    '\n' :: List.replicate (5 - digits.length) ' ' ++ digits ++ ':' :: ' ' ::
      indented 7 cause.toList
  else '\n' :: List.replicate 4 ' ' ++ indented 4 cause.toList

/-- The texts of causes, numbered from `number`. -/
def causeTexts (several : Bool) (number : Nat) : List String → List Char
  | [] => []
  | cause :: causes => causeText several number cause ++ causeTexts several (number + 1) causes

/-- What is reported. -/
def report (t : Trouble) : List Char :=
  (if t.isPanic then "panicked: ".toList else "Error: ".toList) ++ t.headline.toList ++
    (if t.causes = [] then []
      else "\n\nCaused by:".toList ++ causeTexts (1 < t.causes.length) 0 t.causes) ++
    ['\n']

end Trouble

end WorkspaceWatch
