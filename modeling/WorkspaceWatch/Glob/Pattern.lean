/-!
# Glob patterns

A pattern is a list of tokens: a character stands for itself, `?` for any one character, `[...]`
and `[!...]` for one character in or outside a class, `*` for any run of characters and `**`, as a
whole component, for any run of directories. The wildcards match slashes too. Nothing is quoted: a
backslash stands for itself, and so does a `]` that closes no class.

`Glob.compile` reads a pattern from left to right and reports the first fault with its position,
counted in characters.
-/

namespace WorkspaceWatch

namespace Glob

/-- What one place of a pattern matches. -/
inductive Token where
  /-- That character. -/
  | literal (c : Char)
  /-- Any one character. -/
  | anyChar
  /-- One character in one of the ranges. -/
  | oneOf (ranges : List (Char × Char))
  /-- One character in none of the ranges. -/
  | noneOf (ranges : List (Char × Char))
  /-- Any run of characters. -/
  | anyRun
  /-- Any run of whole directories, with the slash that ends it. -/
  | anyDirectories
  deriving DecidableEq, Repr

/-- Why a pattern was rejected. -/
inductive Fault where
  /-- Three or more stars in a row. -/
  | tooManyStars
  /-- Two stars that are not a component of their own. -/
  | partialComponent
  /-- A `[` that begins no class. -/
  | badClass
  deriving DecidableEq, Repr

/-- A fault and the index of the character it is found at. -/
structure PatternError where
  position : Nat
  fault : Fault
  deriving DecidableEq, Repr

/-- The explanation of a fault. -/
def Fault.message : Fault → String
  | .tooManyStars => "wildcards are either regular `*` or recursive `**`"
  | .partialComponent => "recursive wildcards must form a single path component"
  | .badClass => "invalid range pattern"

/-- The explanation of a rejected pattern. -/
def PatternError.message (e : PatternError) : String :=
  "Pattern syntax error near position " ++ toString e.position ++ ": " ++ e.fault.message

/-- The ranges that the body of a class lists, read in threes from the left: `a-z` is a range, any
other character the range of itself. -/
def classRanges : List Char → List (Char × Char)
  | a :: '-' :: z :: r => (a, z) :: classRanges r
  | a :: r => (a, a) :: classRanges r
  | [] => []

/-- The body of a class, which holds at least one character and ends before the next `]`. -/
def classBody? : List Char → Option (List Char)
  | [] => none
  | c :: r => if ']' ∈ r then some (c :: r.takeWhile (· ≠ ']')) else none

/-- Reads one token. The pattern has `c` and then `r` at index `pos`, after the character
`before?`; the answer is the token and how many characters of `r` belong to it. -/
def readToken (pos : Nat) (before? : Option Char) (c : Char) (r : List Char) :
    Except PatternError (Token × Nat) :=
  match c with
  | '?' => .ok (.anyChar, 0)
  | '*' =>
    match (r.takeWhile (· = '*')).length with
    | 0 => .ok (.anyRun, 0)
    | 1 =>
      if before?.all (· = '/') then
        match r.drop 1 with
        | [] => .ok (.anyDirectories, 1)
        | '/' :: _ => .ok (.anyDirectories, 2)
        | _ => .error ⟨pos + 2, .partialComponent⟩
      else .error ⟨pos - 1, .partialComponent⟩
    | _ => .error ⟨pos + 2, .tooManyStars⟩
  | '[' =>
    match r with
    | '!' :: r' =>
      match classBody? r' with
      | some body => .ok (.noneOf (classRanges body), body.length + 2)
      | none => .error ⟨pos, .badClass⟩
    | r =>
      match classBody? r with
      | some body => .ok (.oneOf (classRanges body), body.length + 1)
      | none => .error ⟨pos, .badClass⟩
  | c => .ok (.literal c, 0)

/-- Adds a token to those already read, which stand in reverse. A second run of directories right
after another adds nothing once two tokens stand before it. -/
def push (done : List Token) (t : Token) : List Token :=
  match done with
  | .anyDirectories :: _ :: _ => if t = .anyDirectories then done else t :: done
  | _ => t :: done

/-- Reads the rest of a pattern, where `done` holds the tokens so far in reverse. -/
def compileFrom (pos : Nat) (before? : Option Char) (done : List Token) :
    List Char → Except PatternError (List Token)
  | [] => .ok done.reverse
  | c :: r =>
    match readToken pos before? c r with
    | .error e => .error e
    | .ok (t, n) => compileFrom (pos + 1 + n) ((c :: r)[n]?) (push done t) (r.drop n)
  termination_by s => s.length

/-- The tokens of a pattern. -/
def compile (pattern : String) : Except PatternError (List Token) :=
  compileFrom 0 none [] pattern.toList

end Glob

end WorkspaceWatch
