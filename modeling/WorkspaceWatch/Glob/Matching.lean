import WorkspaceWatch.Glob.Pattern

/-!
# Matching a glob pattern

Matching tries the shortest run for each wildcard first. A text that ends before a token that needs
a character ends the whole search, because a longer run would leave even less text: that is the
verdict `exhausted`, beside `matched` and `mismatch`.
-/

namespace WorkspaceWatch

namespace Glob

/-- The outcome of an attempt. -/
inductive Verdict where
  | matched
  /-- This attempt fails; a longer run may still do. -/
  | mismatch
  /-- The text is too short for the tokens left. -/
  | exhausted
  deriving DecidableEq, Repr

/-- The character lies in one of the ranges. -/
def inRanges (ranges : List (Char × Char)) (c : Char) : Bool :=
  ranges.any fun r => r.1 ≤ c && c ≤ r.2

/-- The first verdict, unless it is a mismatch. -/
def Verdict.orElse (v : Verdict) (next : Unit → Verdict) : Verdict :=
  match v with
  | .mismatch => next ()
  | v => v

/-- Tries the tokens after a run of characters at every place where the run may end. -/
def afterRun (attempt : List Char → Verdict) : List Char → Verdict
  | [] => attempt []
  | c :: s => (attempt (c :: s)).orElse fun _ => afterRun attempt s

/-- Tries the tokens after a run of directories at every place after a slash, and last where the
text ends. -/
def afterSlash (attempt : List Char → Verdict) : List Char → Verdict
  | [] => attempt []
  | c :: s =>
    if c = '/' then (attempt s).orElse fun _ => afterSlash attempt s else afterSlash attempt s

/-- Matches one character and goes on with the rest. -/
def afterChar (fits : Char → Bool) (attempt : List Char → Verdict) : List Char → Verdict
  | [] => .exhausted
  | c :: s => if fits c then attempt s else .mismatch

/-- Matches tokens against a text. -/
def verdict : List Token → List Char → Verdict
  | [], [] => .matched
  | [], _ :: _ => .mismatch
  | .literal c :: ts, s => afterChar (· = c) (verdict ts) s
  | .anyChar :: ts, s => afterChar (fun _ => true) (verdict ts) s
  | .oneOf ranges :: ts, s => afterChar (inRanges ranges) (verdict ts) s
  | .noneOf ranges :: ts, s => afterChar (fun c => !inRanges ranges c) (verdict ts) s
  | .anyRun :: ts, s => afterRun (verdict ts) s
  | .anyDirectories :: ts, s =>
    (verdict ts s).orElse fun _ => afterSlash (verdict ts) s

/-- The tokens match the whole text. -/
def accepts (ts : List Token) (s : List Char) : Bool := verdict ts s = .matched

/-- Literal characters match exactly themselves. -/
theorem accepts_literals_iff (cs s : List Char) :
    accepts (cs.map .literal) s = true ↔ s = cs := by
  suffices h : verdict (cs.map .literal) s = .matched ↔ s = cs by simp [accepts, h]
  induction cs generalizing s with
  | nil => cases s <;> simp [verdict]
  | cons c cs ih =>
    cases s with
    | nil => simp [verdict, afterChar]
    | cons d s =>
      by_cases h : d = c
      · simp [verdict, afterChar, h, ih]
      · simp [verdict, afterChar, h]

end Glob

end WorkspaceWatch
