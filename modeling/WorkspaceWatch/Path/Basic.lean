import WorkspaceWatch.Text.Escaped

/-!
# Paths

A path is a byte string that keeps its spelling, and it is *compared* by its components: repeated
and trailing slashes do not count, a `.` counts only as the very first component of a relative
path, and `..` stays. So `/a//b/.` and `/a/b` are the same path in two spellings, while `a` and
`./a` differ.

`Path.Same` is that comparison and `Path.Within p d` says that `p` lies at or below `d`, by whole
components.
-/

namespace WorkspaceWatch

/-- The byte that separates components. -/
def slash : UInt8 := 47

/-- The byte of which `.` and `..` consist. -/
def dot : UInt8 := 46

/-- A path, as it is spelled. -/
structure Path where
  bytes : List UInt8
  deriving DecidableEq, Repr

/-- One step of a path. -/
inductive Component where
  /-- The leading slash of an absolute path. -/
  | root
  /-- A `.` that begins a relative path. -/
  | here
  /-- A `..`. -/
  | up
  /-- The name of an entry. -/
  | name (bytes : List UInt8)
  deriving DecidableEq, Repr

/-- The stretches between slashes, in order; there is one more of them than there are slashes. -/
def segments : List UInt8 → List (List UInt8)
  | [] => [[]]
  | b :: r =>
    if b = slash then [] :: segments r
    else match segments r with
      | s :: ss => (b :: s) :: ss
      | [] => [[b]]

namespace Component

/-- The component that a stretch between slashes stands for: an empty one and a `.` stand for
none. -/
def ofSegment? (s : List UInt8) : Option Component :=
  if s = [] ∨ s = [dot] then none
  else if s = [dot, dot] then some up
  else some (name s)

/-- Components in the order in which directories are listed: the root, `.`, `..`, then names by
their bytes. -/
def sortKey : Component → List Nat
  | root => [0]
  | here => [1]
  | up => [2]
  | name bs => 3 :: bs.map UInt8.toNat

end Component

namespace Path

/-- The path spelled by a text. -/
def ofString (s : String) : Path := ⟨Utf8.encode s.toList⟩

/-- The text a reader is shown for a path. -/
def text (p : Path) : String := String.ofList (Utf8.decodeLossy p.bytes)

/-- The path is absolute. -/
def isAbsolute (p : Path) : Bool := p.bytes.head? = some slash

/-- The components by which a path is compared. -/
def components (p : Path) : List Component :=
  if p.isAbsolute then .root :: (segments p.bytes).filterMap Component.ofSegment?
  else match segments p.bytes with
    | s :: ss =>
      if s = [dot] then .here :: ss.filterMap Component.ofSegment?
      else (s :: ss).filterMap Component.ofSegment?
    | [] => []

/-! ### Comparison by components -/

/-- Two spellings of one path. -/
def Same (p q : Path) : Prop := p.components = q.components

instance : DecidableRel Same := fun p q => inferInstanceAs (Decidable (p.components = q.components))

/-- The path lies at or below `d`, by whole components. -/
def Within (p d : Path) : Prop := d.components <+: p.components

instance : DecidableRel Within :=
  fun p d => inferInstanceAs (Decidable (d.components <+: p.components))

theorem same_refl (p : Path) : p.Same p := rfl

theorem Same.symm {p q : Path} (h : p.Same q) : q.Same p := Eq.symm h

theorem Same.trans {p q r : Path} (h : p.Same q) (h' : q.Same r) : p.Same r := Eq.trans h h'

theorem within_refl (p : Path) : p.Within p := List.prefix_rfl

theorem Within.trans {p q r : Path} (h : p.Within q) (h' : q.Within r) : p.Within r :=
  List.IsPrefix.trans h' h

/-- The order in which directories are listed. -/
def sortKey (p : Path) : List (List Nat) := p.components.map Component.sortKey

/-- The path comes before another in the order of their components. -/
def precedes (p q : Path) : Bool :=
  p.sortKey.lex q.sortKey fun a b => a.lex b fun m n => decide (m < n)

/-- Paths in the order of their components. -/
def sorted (ps : List Path) : List Path := ps.mergeSort fun p q => !q.precedes p

/-! ### Building and taking apart -/

/-- The entry called `name` in the directory `d`: one slash stands between, unless the directory
ends in one or is empty. -/
def child (d : Path) (name : List UInt8) : Path :=
  match d.bytes.getLast? with
  | none => ⟨name⟩
  | some b => if b = slash then ⟨d.bytes ++ name⟩ else ⟨d.bytes ++ slash :: name⟩

/-- A path seen from the directory `d`: an absolute one stays as it is. -/
def relativeTo (d p : Path) : Path := if p.isAbsolute then p else d.child p.bytes

/-- The name of the entry that the path leads to, if it ends in one. -/
def name? (p : Path) : Option (List UInt8) :=
  match p.components.getLast? with
  | some (.name bs) => some bs
  | _ => none

/-- What is left of a spelling, read from its end, once the slashes and `.` stretches there are
dropped. -/
private def dropIdleEnd : List (List UInt8) → List (List UInt8)
  | [] => []
  | s :: ss => if s = [] ∨ s = [dot] then dropIdleEnd ss else s :: ss

/-- The stretches joined by slashes again. -/
def joinSegments : List (List UInt8) → List UInt8
  | [] => []
  | [s] => s
  | s :: s' :: ss => s ++ slash :: joinSegments (s' :: ss)

/-- The path without its last component, spelled as before. The root and the empty path have no
parent; the parent of a relative path of one component is empty. -/
def parent? (p : Path) : Option Path :=
  let backward := dropIdleEnd (segments p.bytes).reverse
  match backward with
  | [] => if ¬p.isAbsolute ∧ p.components ≠ [] then some ⟨[]⟩ else none
  | _ :: before =>
    match dropIdleEnd before with
    | [] =>
      if p.isAbsolute then some ⟨[slash]⟩
      else if p.components.head? = some .here then some ⟨[dot]⟩
      else some ⟨[]⟩
    | rest => some ⟨joinSegments rest.reverse⟩

end Path

end WorkspaceWatch
