import WorkspaceWatch.Proofs.Coverage.Growth

/-!
# The tree below a root

The directories to be covered are told by the tree itself: those below the root to which only
directories lead that are no links and not ignored (`Covers`). They are named by their places below
the root, `Path.under` giving the path that goes with a place.

In a tree without unreadable directories (`IsClear`) a walk that keeps links comes exactly to these
directories, so it registers exactly them and finds exactly the entries in them that are not
ignored (`Swept`).
-/

namespace WorkspaceWatch

namespace Coverage

variable {fs : FileSystem} {scope : Scope} {root : Path} {r p q : Place} {name : Name}

/-! ### What is to be covered -/

/-- The directory at the place `p` below the root is to be covered. The root is at `r`. -/
def Covers (scope : Scope) (fs : FileSystem) (root : Path) (r : Place) : Place → Prop
  | [] => True
  | name :: p =>
    Covers scope fs root r p ∧ fs.HasDirectory (name :: p ++ r) ∧
      scope.ignore.ignores (root.under (name :: p)) = false

/-- The entry at the place `p` below the root is not ignored and lies in a directory that is to be
covered. -/
def Visible (scope : Scope) (fs : FileSystem) (root : Path) (r : Place) : Place → Prop
  | [] => False
  | name :: p =>
    Covers scope fs root r p ∧ (fs.node? (name :: p ++ r)).isSome = true ∧
      scope.ignore.ignores (root.under (name :: p)) = false

@[simp] theorem covers_nil : Covers scope fs root r [] := trivial

theorem covers_cons : Covers scope fs root r (name :: p) ↔
    Covers scope fs root r p ∧ fs.HasDirectory (name :: p ++ r) ∧
      scope.ignore.ignores (root.under (name :: p)) = false := Iff.rfl

theorem visible_cons : Visible scope fs root r (name :: p) ↔
    Covers scope fs root r p ∧ (fs.node? (name :: p ++ r)).isSome = true ∧
      scope.ignore.ignores (root.under (name :: p)) = false := Iff.rfl

theorem isProper_of_node?_append {node : Node} (h : fs.node? (p ++ r) = some node) :
    p.IsProper := fun _ hn => FileSystem.isProper_of_node? h _ (List.mem_append_left _ hn)

theorem Covers.isProper (h : Covers scope fs root r p) : p.IsProper := by
  cases p with
  | nil => exact fun _ hn => absurd hn List.not_mem_nil
  | cons name p =>
    obtain ⟨_, haccess⟩ := FileSystem.hasDirectory_iff.mp h.2.1
    exact isProper_of_node?_append haccess

/-- What leads to a directory that is to be covered is to be covered. -/
theorem Covers.of_suffix (h : Covers scope fs root r p) (hq : q <:+ p) :
    Covers scope fs root r q := by
  induction p with
  | nil => exact List.suffix_nil.mp hq ▸ h
  | cons name p ih =>
    rcases List.suffix_cons_iff.mp hq with rfl | hq
    · exact h
    · exact ih h.1 hq

/-- No directory that is to be covered is ignored, apart from the root. -/
theorem Covers.ignores_eq_false (h : Covers scope fs root r p) (hp : p ≠ []) :
    scope.ignore.ignores (root.under p) = false := by
  cases p with
  | nil => exact absurd rfl hp
  | cons name p => exact h.2.2

theorem Covers.visible (h : Covers scope fs root r p) (hp : p ≠ []) :
    Visible scope fs root r p := by
  cases p with
  | nil => exact absurd rfl hp
  | cons name p =>
    obtain ⟨_, haccess⟩ := FileSystem.hasDirectory_iff.mp h.2.1
    exact ⟨h.1, by rw [haccess, Option.isSome_some], h.2.2⟩

/-- What is to be covered below a directory that is to be covered itself. -/
theorem covers_append : Covers scope fs root r (p ++ q) ↔
    Covers scope fs root r q ∧ Covers scope fs (root.under q) (q ++ r) p := by
  induction p with
  | nil => simp
  | cons name p ih =>
    rw [List.cons_append, covers_cons, ih, covers_cons, ← Path.under_append, List.cons_append,
      List.cons_append, List.cons_append, List.append_assoc, and_assoc]

/-- What leads to something visible is to be covered. -/
theorem Visible.covers_of_suffix (h : Visible scope fs root r p) (hq : q <:+ p) (hne : q ≠ p) :
    Covers scope fs root r q := by
  cases p with
  | nil => exact h.elim
  | cons name p => exact h.1.of_suffix ((List.suffix_cons_iff.mp hq).resolve_left hne)

theorem Visible.ignores_eq_false (h : Visible scope fs root r p) :
    scope.ignore.ignores (root.under p) = false := by
  cases p with
  | nil => exact h.elim
  | cons name p => exact h.2.2

theorem Visible.isProper (h : Visible scope fs root r p) : p.IsProper := by
  cases p with
  | nil => exact h.elim
  | cons name p =>
    obtain ⟨node, hnode⟩ := Option.isSome_iff_exists.mp h.2.1
    exact isProper_of_node?_append hnode

/-! ### What a directory leads to -/

section Listed

variable {x : Path} (hlist : fs.list (root.under p) = .ok (p ++ r, fs.names (p ++ r)))
  (hp : Covers scope fs root r p)
include hlist hp

/-- A directory that can be read shows exactly what is visible in it. -/
theorem shows_under_iff : Shows fs scope (root.under p) x ↔
    ∃ name, Visible scope fs root r (name :: p) ∧ root.under (name :: p) = x := by
  constructor
  · rintro ⟨v, names, hok, hkept⟩
    rw [hlist] at hok
    cases hok
    rw [Scope.kept, List.mem_filter, List.mem_map] at hkept
    obtain ⟨⟨name, hname, rfl⟩, hkept⟩ := hkept
    obtain ⟨node, hnode⟩ := (fs.mem_names_iff).mp hname
    refine ⟨name, ⟨hp, ?_, by simpa using hkept⟩, rfl⟩
    rw [List.cons_append, hnode, Option.isSome_some]
  · rintro ⟨name, ⟨-, hsome, hkept⟩, rfl⟩
    refine ⟨_, _, hlist, List.mem_filter.mpr ⟨List.mem_map.mpr ⟨name, ?_, rfl⟩, ?_⟩⟩
    · exact fs.mem_names_iff.mpr (Option.isSome_iff_exists.mp hsome)
    · simpa using hkept

variable (hlinks : scope.followLinks = false)
include hlinks

/-- Among the entries that it shows, a walk that keeps links enters those that are to be covered and
have a path that leads somewhere, if the directory can be searched. -/
theorem enters_under_iff (hvisible : Visible scope fs root r (name :: p)) :
    scope.enters fs (root.under (name :: p)) = true ↔
      Covers scope fs root r (name :: p) ∧ fs.isSearchable (p ++ r) = true ∧
        (root.under (name :: p)).fault? = none := by
  obtain ⟨-, hsome, hkept⟩ := hvisible
  obtain ⟨node, hnode⟩ := Option.isSome_iff_exists.mp hsome
  rw [Scope.enters, hlinks, covers_cons, FileSystem.HasDirectory, hnode]
  constructor
  · intro henters
    have hfault := FileSystem.fault?_of_isDirectoryAt henters
    rw [Path.under_cons, FileSystem.isDirectoryAt_child hlist hfault hnode,
      Bool.and_eq_true] at henters
    exact ⟨⟨hp, henters.2, hkept⟩, henters.1, hfault⟩
  · rintro ⟨⟨-, hdir, -⟩, hsearch, hfault⟩
    rw [Path.under_cons, FileSystem.isDirectoryAt_child hlist hfault hnode, hsearch, Bool.true_and]
    exact hdir

theorem leads_under_iff : Leads fs scope (root.under p) x ↔
    ∃ name, Covers scope fs root r (name :: p) ∧ fs.isSearchable (p ++ r) = true ∧
      (root.under (name :: p)).fault? = none ∧ root.under (name :: p) = x := by
  rw [Leads, shows_under_iff hlist hp]
  constructor
  · rintro ⟨⟨name, hvisible, rfl⟩, henters⟩
    obtain ⟨hcovers, hsearch, hfault⟩ := (enters_under_iff hlist hp hlinks hvisible).mp henters
    exact ⟨name, hcovers, hsearch, hfault, rfl⟩
  · rintro ⟨name, hcovers, hsearch, hfault, rfl⟩
    have hvisible := hcovers.visible (List.cons_ne_nil name p)
    exact ⟨⟨name, hvisible, rfl⟩,
      (enters_under_iff hlist hp hlinks hvisible).mpr ⟨hcovers, hsearch, hfault⟩⟩

end Listed

/-! ### Clear trees -/

/-- The root leads to `r`, and every directory that is to be covered can be read. -/
structure IsClear (scope : Scope) (fs : FileSystem) (root : Path) (r : Place) : Prop where
  place : fs.place root = .ok r
  readable : ∀ p, Covers scope fs root r p → (fs.list (root.under p)).isOk = true

/-- A tree is clear if its root and all directories below can be read. -/
theorem IsClear.of_entries (hplace : fs.place root = .ok r) (hroot : (fs.list root).isOk = true)
    (h : ∀ e ∈ fs.entries, e.2.isDirectory = true → r <:+ e.1 →
      (fs.list (root.under (e.1.take (e.1.length - r.length)))).isOk = true) :
    IsClear scope fs root r where
  place := hplace
  readable := fun p hp => by
    cases p with
    | nil => exact hroot
    | cons name p =>
      obtain ⟨_, haccess⟩ := FileSystem.hasDirectory_iff.mp hp.2.1
      have hmem := (fs.node?_eq_some_iff (by simp)).mp haccess
      have hread := h _ hmem rfl (List.suffix_append _ _)
      rwa [List.length_append, Nat.add_sub_cancel, List.take_left' rfl] at hread

namespace IsClear

variable {x : Path} (h : IsClear scope fs root r)
include h

/-- A directory that is to be covered is found under its path. -/
theorem list_under (hp : Covers scope fs root r p) :
    fs.list (root.under p) = .ok (p ++ r, fs.names (p ++ r)) := by
  have hread : ∀ {p}, Covers scope fs root r p →
      ∃ v, fs.list (root.under p) = .ok (v, fs.names v) := fun {p} hp => by
    have hok := h.readable p hp
    cases hlist : fs.list (root.under p) with
    | error e =>
      rw [hlist] at hok
      cases hok
    | ok found =>
      obtain ⟨v, names⟩ := found
      exact ⟨v, by rw [(FileSystem.list_eq_ok_iff.mp hlist).2]⟩
  induction p with
  | nil =>
    obtain ⟨v, hv⟩ := hread hp
    have hplace := FileSystem.place_of_list hv
    obtain rfl : v = r := Except.ok.inj (hplace.symm.trans h.place)
    exact hv
  | cons name p ih =>
    obtain ⟨v, hv⟩ := hread hp
    obtain ⟨⟨_, hlocate, -⟩, -⟩ := FileSystem.list_eq_ok_iff.mp hv
    have hsearch := FileSystem.isSearchable_of_list_child (ih hp.1)
      (hp.isProper name List.mem_cons_self) hv
    have hplace := FileSystem.place_child (ih hp.1) hsearch
      (FileSystem.fault?_of_locate hlocate) hp.2.1
    obtain rfl : v = name :: p ++ r :=
      Except.ok.inj ((FileSystem.place_of_list hv).symm.trans hplace)
    exact hv

/-- A directory in which there is one that is to be covered can be searched. -/
theorem isSearchable (hp : Covers scope fs root r (name :: p)) :
    fs.isSearchable (p ++ r) = true :=
  FileSystem.isSearchable_of_list_child (h.list_under hp.1) (hp.isProper name List.mem_cons_self)
    (h.list_under hp)

theorem place_under (hp : Covers scope fs root r p) : fs.place (root.under p) = .ok (p ++ r) :=
  FileSystem.place_of_list (h.list_under hp)

/-- The tree below a directory of a clear tree is clear. -/
theorem below (hq : Covers scope fs root r q) :
    IsClear scope fs (root.under q) (q ++ r) where
  place := h.place_under hq
  readable := fun p hp => by
    rw [← Path.under_append]
    exact h.readable _ (covers_append.mpr ⟨hq, hp⟩)

theorem fault?_under (hp : Covers scope fs root r p) : (root.under p).fault? = none :=
  FileSystem.fault?_of_list (h.list_under hp)

/-- A directory shows exactly what is visible in it. -/
theorem shows_iff (hp : Covers scope fs root r p) : Shows fs scope (root.under p) x ↔
    ∃ name, Visible scope fs root r (name :: p) ∧ root.under (name :: p) = x :=
  shows_under_iff (h.list_under hp) hp

variable (hlinks : scope.followLinks = false)
include hlinks

/-- A walk that keeps links enters exactly the entries that are to be covered. -/
theorem enters_iff (hvisible : Visible scope fs root r p) :
    scope.enters fs (root.under p) = true ↔ Covers scope fs root r p := by
  obtain _ | ⟨name, p⟩ := p
  · exact hvisible.elim
  · rw [enters_under_iff (h.list_under hvisible.1) hvisible.1 hlinks hvisible]
    exact and_iff_left_of_imp fun hcovers => ⟨h.isSearchable hcovers, h.fault?_under hcovers⟩

theorem leads_iff (hp : Covers scope fs root r p) : Leads fs scope (root.under p) x ↔
    ∃ name, Covers scope fs root r (name :: p) ∧ root.under (name :: p) = x := by
  rw [leads_under_iff (h.list_under hp) hp hlinks]
  exact exists_congr fun name => and_congr_right fun hcovers =>
    by rw [and_iff_right (h.isSearchable hcovers), and_iff_right (h.fault?_under hcovers)]

/-- In a clear tree a walk comes to what is to be covered, and to nothing else. -/
theorem reached_iff : Reached fs scope root x ↔
    ∃ p, Covers scope fs root r p ∧ root.under p = x := by
  constructor
  · intro hx
    induction hx with
    | start => exact ⟨[], trivial, rfl⟩
    | next _ hleads ih =>
      obtain ⟨p, hp, rfl⟩ := ih
      obtain ⟨name, hname, rfl⟩ := (h.leads_iff hlinks hp).mp hleads
      exact ⟨name :: p, hname, rfl⟩
  · rintro ⟨p, hp, rfl⟩
    induction p with
    | nil => exact .start
    | cons name p ih => exact (ih hp.1).next ((h.leads_iff hlinks hp.1).mpr ⟨name, hp, rfl⟩)

end IsClear

/-! ### Sweeping a clear tree -/

/-- What a walk leaves behind that began with the coverage `c` and came to an end: the coverage
`c'` and the entries `found`. -/
structure Swept (scope : Scope) (fs : FileSystem) (root : Path) (r : Place) (c c' : Coverage)
    (found : List Path) : Prop where
  kept : c.directories ⊆ c'.directories
  registered : ∀ p, Covers scope fs root r p → c'.isRegistered (root.under p) = true
  origin : ∀ d ∈ c'.directories,
    d ∈ c.directories ∨ ∃ p, Covers scope fs root r p ∧ root.under p = d
  found : ∀ x, x ∈ found ↔ ∃ p, Visible scope fs root r p ∧ root.under p = x

theorem Explored.swept {c : Coverage} {done : List Path} {w : Walk}
    (h : Explored fs scope c root done [] w) (hclear : IsClear scope fs root r)
    (hlinks : scope.followLinks = false) : Swept scope fs root r c w.coverage w.found := by
  have hcovers : ∀ d ∈ done, ∃ p, Covers scope fs root r p ∧ root.under p = d := fun d hd =>
    (hclear.reached_iff hlinks).mp ((h.mem_done_iff hlinks).mp hd)
  have hall : ∀ p, Covers scope fs root r p → root.under p ∈ done := fun p hp =>
    (h.mem_done_iff hlinks).mpr ((hclear.reached_iff hlinks).mpr ⟨p, hp, rfl⟩)
  refine ⟨h.kept, fun p hp => h.registered _ (hall p hp), fun d hd => ?_, fun x => ?_⟩
  · exact (h.origin d hd).imp_right (hcovers d)
  · rw [h.found]
    constructor
    · rintro ⟨d, hd, hshows⟩
      obtain ⟨p, hp, rfl⟩ := hcovers d hd
      obtain ⟨name, hname, rfl⟩ := (hclear.shows_iff hp).mp hshows
      exact ⟨name :: p, hname, rfl⟩
    · rintro ⟨p, hp, rfl⟩
      cases p with
      | nil => exact hp.elim
      | cons name p => exact ⟨_, hall p hp.1, (hclear.shows_iff hp.1).mpr ⟨name, hp, rfl⟩⟩

/-- A walk through a clear tree is not stopped and sweeps it. -/
theorem swept_walk (hclear : IsClear scope fs root r) (hlinks : scope.followLinks = false)
    (strict : Bool) (c : Coverage) : ∃ w,
      walk fs scope Backend.acceptAll strict c root = (w, none) ∧
        Swept scope fs root r c w.coverage w.found := by
  have hread : ∀ d, Reached fs scope root d → (fs.list d).isOk = true := fun d hd => by
    obtain ⟨p, hp, rfl⟩ := (hclear.reached_iff hlinks).mp hd
    exact hclear.readable p hp
  obtain ⟨w, done, hwalk, hexplored⟩ :=
    explored_walk c root fun (_ : strict = true) => hread
  exact ⟨w, hwalk, hexplored.swept hclear hlinks⟩

theorem swept_registerCreated (hclear : IsClear scope fs root r)
    (hlinks : scope.followLinks = false) (c : Coverage) :
    Swept scope fs root r c (c.registerCreated fs scope Backend.acceptAll root).1
      (c.registerCreated fs scope Backend.acceptAll root).2 := by
  obtain ⟨w, hwalk, hswept⟩ := swept_walk hclear hlinks false c
  have hdirectories : (c.registerCreated fs scope Backend.acceptAll root).1.directories =
      w.coverage.directories := by
    rw [registerCreated, hwalk]
    exact (w.account_frame none).1
  have hfound : (c.registerCreated fs scope Backend.acceptAll root).2 = w.found := by
    rw [registerCreated, hwalk]
  refine ⟨?_, fun p hp => ?_, ?_, ?_⟩
  · rw [hdirectories]
    exact hswept.kept
  · rw [isRegistered, hdirectories]
    exact hswept.registered p hp
  · rw [hdirectories]
    exact hswept.origin
  · rw [hfound]
    exact hswept.found

theorem swept_registerRoot (hclear : IsClear scope fs root r)
    (hlinks : scope.followLinks = false) (c : Coverage) : ∃ count found,
      (c.registerRoot fs scope Backend.acceptAll root).2 = .ok count ∧
        Swept scope fs root r c (c.registerRoot fs scope Backend.acceptAll root).1 found := by
  obtain ⟨w, hwalk, hswept⟩ := swept_walk hclear hlinks true c
  rw [registerRoot, hwalk]
  exact ⟨_, w.found, rfl, hswept.kept, hswept.registered, hswept.origin, hswept.found⟩

end Coverage

end WorkspaceWatch
