import WorkspaceWatch.Proofs.Coverage.Tree
import WorkspaceWatch.Proofs.Coverage.Invariant

/-!
# The files that are listed

A report of files is a list of the entries directly in registered directories, as far as these can
be read, without directories and ignored entries (`Coverage.mem_files_iff`). It depends on what is
registered, not on the tree below the root. If no directory is registered twice, then no file is
listed twice (`Coverage.pairwise_files`).

In a clear tree the files in a registered directory are the visible entries that are no directories
(`Coverage.IsClear.holdsFile_iff`).
-/

namespace WorkspaceWatch

/-- Entries of two directories have the same path only if they have the same name and the
directories have the same path. -/
theorem Path.same_child_iff {d d' : Path} {n n' : Name} (h : isProperName n = true)
    (h' : isProperName n' = true) : (d.child n).Same (d'.child n') ↔ d.Same d' ∧ n = n' := by
  rw [Same, components_child d h, components_child d' h']
  constructor
  · intro heq
    obtain ⟨hd, hn⟩ := List.append_inj' heq rfl
    exact ⟨hd, Component.name.inj (List.cons.inj hn).1⟩
  · rintro ⟨hd, rfl⟩
    rw [hd]

namespace Coverage

variable {fs : FileSystem} {scope : Scope} {c : Coverage} {root dir x : Path} {r p : Place}
  {name : Name}

/-- The file `x` lies directly in a directory that can be read: the directory lists it, and it is
neither a directory nor ignored. -/
def HoldsFile (fs : FileSystem) (scope : Scope) (dir x : Path) : Prop :=
  ∃ v names name, fs.list dir = .ok (v, names) ∧ name ∈ names ∧ ¬fs.HasDirectory (name :: v) ∧
    dir.child name = x ∧ scope.ignore.ignores x = false

/-- What a directory lists is a file if it is no directory. -/
private theorem any_not_isDirectory_iff {v : Place} (hname : name ∈ fs.names v) :
    (fs.node? (name :: v)).any (fun node => !node.isDirectory) = true ↔
      ¬fs.HasDirectory (name :: v) := by
  obtain ⟨node, hnode⟩ := fs.mem_names_iff.mp hname
  simp [FileSystem.HasDirectory, hnode]

theorem mem_filesIn_iff : x ∈ filesIn fs scope dir ↔ HoldsFile fs scope dir x := by
  rw [filesIn]
  cases hlist : fs.list dir with
  | error e => simp [HoldsFile, hlist]
  | ok found =>
    obtain ⟨v, names⟩ := found
    obtain rfl : fs.names v = names := (FileSystem.list_eq_ok_iff.mp hlist).2
    simp only [Scope.kept, List.mem_filter, List.mem_map, Bool.not_eq_true', HoldsFile, hlist,
      Except.ok.injEq, Prod.mk.injEq]
    constructor
    · rintro ⟨⟨name, ⟨hname, hfile⟩, rfl⟩, hkept⟩
      exact ⟨v, _, name, ⟨rfl, rfl⟩, hname, (any_not_isDirectory_iff hname).mp hfile, rfl, hkept⟩
    · rintro ⟨_, _, name, ⟨rfl, rfl⟩, hname, hfile, rfl, hkept⟩
      exact ⟨⟨name, ⟨hname, (any_not_isDirectory_iff hname).mpr hfile⟩, rfl⟩, hkept⟩

/-- **What is listed**: the files directly in the registered directories. -/
theorem mem_files_iff :
    x ∈ c.files fs scope ↔ ∃ d ∈ c.directories, HoldsFile fs scope d x := by
  simp only [files, List.mem_flatMap, mem_filesIn_iff]

/-! ### Each once -/

/-- A file has a proper name. -/
theorem HoldsFile.exists_child (h : HoldsFile fs scope dir x) :
    ∃ name, isProperName name = true ∧ dir.child name = x := by
  obtain ⟨v, names, name, hlist, hname, -, rfl, -⟩ := h
  rw [← (FileSystem.list_eq_ok_iff.mp hlist).2] at hname
  obtain ⟨node, hnode⟩ := fs.mem_names_iff.mp hname
  exact ⟨name, fs.isProperName_of_node? hnode, rfl⟩

theorem pairwise_filesIn (fs : FileSystem) (scope : Scope) (dir : Path) :
    (filesIn fs scope dir).Pairwise fun x y => ¬x.Same y := by
  rw [filesIn]
  split
  · exact List.Pairwise.nil
  · next v names hlist =>
    obtain rfl : fs.names v = names := (FileSystem.list_eq_ok_iff.mp hlist).2
    have hproper : ∀ name ∈ fs.names v, isProperName name = true := fun name hname => by
      obtain ⟨node, hnode⟩ := fs.mem_names_iff.mp hname
      exact fs.isProperName_of_node? hnode
    refine List.Pairwise.filter _ (List.pairwise_map.mpr (List.Pairwise.filter _ ?_))
    refine (fs.nodup_names v).imp_of_mem fun hn hn' hne hsame => hne ?_
    exact ((Path.same_child_iff (hproper _ hn) (hproper _ hn')).mp hsame).2

/-- If no directory is registered twice, no file is listed twice. -/
theorem pairwise_files (h : c.IsDistinct) :
    (c.files fs scope).Pairwise fun x y => ¬x.Same y := by
  rw [files, List.pairwise_flatMap]
  refine ⟨fun d _ => pairwise_filesIn fs scope d, h.imp fun hne x hx y hy hsame => hne ?_⟩
  obtain ⟨name, hname, rfl⟩ := (mem_filesIn_iff.mp hx).exists_child
  obtain ⟨name', hname', rfl⟩ := (mem_filesIn_iff.mp hy).exists_child
  exact ((Path.same_child_iff hname hname').mp hsame).1

/-! ### In a clear tree -/

/-- The files in a directory of a clear tree are the visible entries that are no directories. -/
theorem IsClear.holdsFile_iff (h : IsClear scope fs root r) (hp : Covers scope fs root r p) :
    HoldsFile fs scope (root.under p) x ↔ ∃ name, Visible scope fs root r (name :: p) ∧
      ¬fs.HasDirectory (name :: p ++ r) ∧ root.under (name :: p) = x := by
  have hlist := h.list_under hp
  have hnames : ∀ {name}, name ∈ fs.names (p ++ r) ↔ (fs.node? (name :: p ++ r)).isSome = true :=
    fs.mem_names_iff.trans Option.isSome_iff_exists.symm
  constructor
  · rintro ⟨_, _, name, hok, hname, hfile, rfl, hkept⟩
    cases hlist.symm.trans hok
    exact ⟨name, ⟨hp, hnames.mp hname, hkept⟩, hfile, rfl⟩
  · rintro ⟨name, ⟨-, hsome, hkept⟩, hfile, rfl⟩
    exact ⟨_, _, name, hlist, hnames.mpr hsome, hfile, rfl, hkept⟩

/-- Of the visible files of a clear tree those are listed whose directory is registered. -/
theorem IsClear.exists_mem_files_iff (h : IsClear scope fs root r)
    (hvisible : Visible scope fs root r (name :: p)) (hfile : ¬fs.HasDirectory (name :: p ++ r)) :
    (root.under p ∈ c.directories → root.under (name :: p) ∈ c.files fs scope) ∧
      ((∃ x ∈ c.files fs scope, x.Same (root.under (name :: p))) →
        c.isRegistered (root.under p) = true) := by
  refine ⟨fun hd => ?_, ?_⟩
  · exact mem_files_iff.mpr ⟨_, hd, (h.holdsFile_iff hvisible.1).mpr ⟨name, hvisible, hfile, rfl⟩⟩
  · rintro ⟨x, hx, hsame⟩
    obtain ⟨d, hd, hholds⟩ := mem_files_iff.mp hx
    obtain ⟨name', hname', rfl⟩ := hholds.exists_child
    have hname := hvisible.isProper name List.mem_cons_self
    exact isRegistered_iff.mpr ⟨d, hd, ((Path.same_child_iff hname' hname).mp hsame).1⟩

end Coverage

end WorkspaceWatch
