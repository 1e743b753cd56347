import WorkspaceWatch.FileSystem.IoFault
import WorkspaceWatch.Path.Basic

/-!
# File systems

A file system is a finite table of what is at which place. A **place** is the list of names that
lead to it from the root, the innermost first, so that `name :: d` is the entry called `name` in the
directory at `d`. The root is always a directory with full access and is not in the table. Every
other place in the table occurs once, under a proper name, in a place that is a directory; these
invariants are part of the type, and the operations that change a file system keep them.

A directory gives two kinds of access, and one without the other is of little use: to read it is to
list its names, to search it is to look up what goes by a name.

The order of the table is the order in which directories list their entries; nothing else depends
on it. A file system is seen from a working directory, where relative paths begin.
-/

namespace WorkspaceWatch

/-- The name of a directory entry. -/
abbrev Name := List UInt8

/-- A place: the names that lead to it from the root, the innermost first. -/
abbrev Place := List Name

/-- What a directory may be used for. -/
structure Access where
  /-- Its names can be listed. -/
  readable : Bool := true
  /-- What goes by a name in it can be looked up. -/
  searchable : Bool := true
  deriving DecidableEq, Repr

/-- What is at a place. -/
inductive Node where
  | file (content : String)
  /-- A symbolic link, with its target as it is stored. -/
  | link (target : List UInt8)
  | directory (access : Access)
  deriving DecidableEq, Repr

namespace Node

/-- The node is a directory. -/
def isDirectory : Node → Bool
  | directory _ => true
  | _ => false

/-- The node is a directory that can be read. -/
def isReadable : Node → Bool
  | directory access => access.readable
  | _ => false

/-- The node is a directory that can be searched. -/
def isSearchable : Node → Bool
  | directory access => access.searchable
  | _ => false

end Node

/-- How many bytes a name may have. -/
def maxNameLength : Nat := 255

/-- The name may be given to an entry. -/
def isProperName (n : Name) : Bool :=
  n ≠ [] && n ≠ [dot] && n ≠ [dot, dot] && n.length ≤ maxNameLength &&
    n.all fun b => b ≠ slash && b ≠ 0

namespace FileSystem

/-- What a table has at a place. The root is a directory. -/
def nodeIn? (entries : List (Place × Node)) : Place → Option Node
  | [] => some (.directory {})
  | p => (entries.find? fun e => e.1 = p).map Prod.snd

/-- The entry has a proper name and lies in a directory. -/
def isRootedIn (entries : List (Place × Node)) (e : Place × Node) : Bool :=
  match e.1 with
  | [] => false
  | name :: d => isProperName name && (nodeIn? entries d).any Node.isDirectory

end FileSystem

/-- A file system. -/
structure FileSystem where
  entries : List (Place × Node)
  /-- Every place occurs once. -/
  nodup : (entries.map Prod.fst).Nodup := by decide
  /-- Every entry has a proper name and lies in a directory. -/
  rooted : entries.all (FileSystem.isRootedIn entries) = true := by decide
  /-- The directory from which relative paths lead. -/
  workingDirectory : Place := []

namespace FileSystem

/-- The file system that holds only its root. -/
def empty : FileSystem := { entries := [] }

instance : Inhabited FileSystem := ⟨empty⟩

/-- What is at a place. -/
def node? (fs : FileSystem) (p : Place) : Option Node := nodeIn? fs.entries p

/-- There is a directory at the place. -/
def HasDirectory (fs : FileSystem) (p : Place) : Prop := (fs.node? p).any Node.isDirectory = true

instance (fs : FileSystem) (p : Place) : Decidable (fs.HasDirectory p) :=
  inferInstanceAs (Decidable (_ = _))

/-- There is a directory at the place that can be read. -/
def isReadable (fs : FileSystem) (p : Place) : Bool := (fs.node? p).any Node.isReadable

/-- There is a directory at the place that can be searched. -/
def isSearchable (fs : FileSystem) (p : Place) : Bool := (fs.node? p).any Node.isSearchable

/-- The names in the directory at `d`, in the order in which it lists them. -/
def names (fs : FileSystem) (d : Place) : List Name :=
  fs.entries.filterMap fun e =>
    match e.1 with
    | [] => none
    | name :: d' => if d' = d then some name else none

/-! ### The table seen as a function -/

@[simp] theorem node?_root (fs : FileSystem) : fs.node? [] = some (.directory {}) := rfl

/-- In a table without repeated places, looking up a place finds what is listed for it. -/
theorem find?_eq_some_iff {entries : List (Place × Node)}
    (h : (entries.map Prod.fst).Nodup) {p : Place} {n : Node} :
    (entries.find? fun e => e.1 = p).map Prod.snd = some n ↔ (p, n) ∈ entries := by
  induction entries with
  | nil => simp
  | cons e es ih =>
    obtain ⟨q, m⟩ := e
    simp only [List.map_cons, List.nodup_cons, List.mem_map, Prod.exists, exists_and_right,
      exists_eq_right, not_exists] at h
    by_cases hq : q = p
    · subst hq
      constructor
      · intro heq
        simp only [decide_true, List.find?_cons_of_pos, Option.map_some, Option.some.injEq] at heq
        simp [heq]
      · intro hmem
        rcases List.mem_cons.1 hmem with heq | hmem
        · simp_all
        · exact absurd hmem (h.1 n)
    · rw [List.find?_cons_of_neg (by simpa using hq), ih h.2]
      simp [Ne.symm hq]

/-- The node at a place other than the root is the one that the table lists there. -/
theorem node?_eq_some_iff (fs : FileSystem) {p : Place} (hp : p ≠ []) {n : Node} :
    fs.node? p = some n ↔ (p, n) ∈ fs.entries := by
  obtain ⟨name, d, rfl⟩ := List.exists_cons_of_ne_nil hp
  exact find?_eq_some_iff fs.nodup

theorem isRootedIn_cons {entries : List (Place × Node)} {name : Name} {d : Place}
    {n : Node} : isRootedIn entries (name :: d, n) = true ↔
      isProperName name = true ∧ (nodeIn? entries d).any Node.isDirectory = true := by
  simp [isRootedIn]

/-- What is at a place lies in a directory. -/
theorem hasDirectory_of_node? (fs : FileSystem) {name : Name} {d : Place} {n : Node}
    (h : fs.node? (name :: d) = some n) : fs.HasDirectory d := by
  rw [node?_eq_some_iff fs (by simp)] at h
  exact (isRootedIn_cons.1 (List.all_eq_true.1 fs.rooted _ h)).2

/-- What is at a place has a proper name. -/
theorem isProperName_of_node? (fs : FileSystem) {name : Name} {d : Place} {n : Node}
    (h : fs.node? (name :: d) = some n) : isProperName name = true := by
  rw [node?_eq_some_iff fs (by simp)] at h
  exact (isRootedIn_cons.1 (List.all_eq_true.1 fs.rooted _ h)).1

/-- A directory lists exactly the names under which it holds something. -/
theorem mem_names_iff (fs : FileSystem) {name : Name} {d : Place} :
    name ∈ fs.names d ↔ ∃ n, fs.node? (name :: d) = some n := by
  simp only [names, List.mem_filterMap, Prod.exists]
  constructor
  · rintro ⟨p, n, hmem, hp⟩
    split at hp
    · cases hp
    · next name' d' =>
      split at hp
      · cases hp
        subst d'
        exact ⟨n, (node?_eq_some_iff fs (by simp)).2 hmem⟩
      · cases hp
  · rintro ⟨n, hn⟩
    exact ⟨name :: d, n, (node?_eq_some_iff fs (by simp)).1 hn, by simp⟩

/-- A directory lists no name twice. -/
theorem nodup_names (fs : FileSystem) (d : Place) : (fs.names d).Nodup := by
  have h := fs.nodup
  rw [names]
  generalize fs.entries = entries at h
  induction entries with
  | nil => simp
  | cons e es ih =>
    obtain ⟨p, n⟩ := e
    simp only [List.map_cons, List.nodup_cons, List.mem_map, Prod.exists, exists_and_right,
      exists_eq_right, not_exists] at h
    match p with
    | [] => simpa using ih h.2
    | name :: d' =>
      by_cases hd : d' = d
      · subst hd
        rw [List.filterMap_cons_some (b := name) (by simp)]
        refine List.nodup_cons.2 ⟨?_, ih h.2⟩
        simp only [List.mem_filterMap, Prod.exists, not_exists, not_and]
        intro q m hmem hq
        split at hq
        · cases hq
        · split at hq
          · cases hq
            subst d'
            exact h.1 m hmem
          · cases hq
      · rw [List.filterMap_cons_none (by simp [hd])]
        exact ih h.2

end FileSystem

end WorkspaceWatch
