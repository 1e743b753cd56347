import WorkspaceWatch.Glob.Matching
import WorkspaceWatch.Path.Basic

/-!
# Ignore rules

A list of compiled patterns. A path is ignored when some pattern matches the name it ends in or its
whole spelling, so that `.git` and `**/.git/**` both work. No patterns ignore nothing.
-/

namespace WorkspaceWatch

/-- Compiled ignore patterns. -/
structure IgnoreRules where
  patterns : List (List Glob.Token)
  deriving DecidableEq, Repr

namespace IgnoreRules

/-- The rules that ignore nothing. -/
def none : IgnoreRules := ⟨[]⟩

/-- Compiles patterns in order; the first fault wins. -/
def compile (patterns : List String) : Except Glob.PatternError IgnoreRules :=
  (patterns.mapM Glob.compile).map .mk

/-- One pattern covers the path: by the name it ends in, or as a whole. -/
def covers (pattern : List Glob.Token) (p : Path) : Bool :=
  (p.name?.any fun name => Glob.accepts pattern (Utf8.decodeLossy name)) ||
    Glob.accepts pattern (Utf8.decodeLossy p.bytes)

/-- The path is ignored. -/
def ignores (rules : IgnoreRules) (p : Path) : Bool := rules.patterns.any (covers · p)

/-- The rules as they are shown to a developer. -/
def description (rules : IgnoreRules) : String :=
  "IgnoreFilter \x7b patterns: " ++ toString rules.patterns.length ++ " \x7d"

@[simp] theorem ignores_none (p : Path) : none.ignores p = false := rfl

theorem ignores_iff (rules : IgnoreRules) (p : Path) :
    rules.ignores p = true ↔ ∃ pattern ∈ rules.patterns, covers pattern p = true := by
  simp [ignores]

end IgnoreRules

end WorkspaceWatch
