import Mathlib.Data.List.Dedup
import WorkspaceWatch.FileSystem.Edit
import WorkspaceWatch.Proofs.Coverage.Refusals
import WorkspaceWatch.Proofs.Coverage.Tree

/-!
# What registering a root comes to

The operating system takes no path that is longer than `maxPathLength`, and it looks up nothing in a
directory that cannot be searched. So of the directories that are to be covered a walk comes only to
those whose path is no longer than that and above which all directories can be searched. Among them
it comes to every one, whatever the links and the order of the entries, unless one of them is
refused or cannot be read (`registerRoot_attains`). Any other directory is passed over without a
word (`registerRoot_passes_over`).
-/

namespace WorkspaceWatch

namespace Coverage

variable {fs : FileSystem} {scope : Scope} {policy : Backend.Policy} {root d : Path} {r p : Place}

/-! ### Coming to a directory -/

/-- The directories above a place, up to the root, can be searched. -/
def Accessible (fs : FileSystem) (r : Place) : Place → Prop
  | [] => True
  | _ :: p => Accessible fs r p ∧ fs.isSearchable (p ++ r) = true

/-- The path is that of a directory below the root which is to be covered and can be looked up, and
it fits. -/
def Attainable (scope : Scope) (fs : FileSystem) (root : Path) (r : Place) (d : Path) : Prop :=
  ∃ p, Covers scope fs root r p ∧ Accessible fs r p ∧ (root.under p).Fits ∧ root.under p = d

section Rooted

variable (hplace : fs.place root = .ok r) (hdir : fs.HasDirectory r)
include hplace hdir

/-- A directory that is to be covered is found under its path, if that fits and can be looked
up. -/
theorem locate_under (hp : Covers scope fs root r p) (hopen : Accessible fs r p)
    (hfits : (root.under p).Fits) :
    ∃ access, fs.locate .followed (root.under p) = .ok (.entry (p ++ r) (.directory access)) := by
  induction p with
  | nil => exact FileSystem.locate_of_place hplace hdir
  | cons name p ih =>
    obtain ⟨_, hlocate⟩ := ih hp.1 hopen.1 hfits.of_child
    obtain ⟨access, haccess⟩ := FileSystem.hasDirectory_iff.mp hp.2.1
    have hfault := Path.fault?_child (FileSystem.fault?_of_locate hlocate)
      (hp.isProper name List.mem_cons_self) hfits
    exact ⟨access,
      FileSystem.locate_child hlocate hopen.2 hfault haccess (.inr ⟨rfl, fun _ => nofun⟩)⟩

theorem place_under (hp : Covers scope fs root r p) (hopen : Accessible fs r p)
    (hfits : (root.under p).Fits) : fs.place (root.under p) = .ok (p ++ r) := by
  obtain ⟨_, hlocate⟩ := locate_under hplace hdir hp hopen hfits
  rw [FileSystem.place, hlocate]

/-- If it can be read, it lists what is at its place. -/
theorem list_under {v : Place} {names : List Name} (hp : Covers scope fs root r p)
    (hopen : Accessible fs r p) (hfits : (root.under p).Fits)
    (hlist : fs.list (root.under p) = .ok (v, names)) :
    fs.list (root.under p) = .ok (p ++ r, fs.names (p ++ r)) := by
  have hplace := place_under hplace hdir hp hopen hfits
  obtain rfl := (FileSystem.list_eq_ok_iff.mp hlist).2
  rwa [Except.ok.inj (hplace.symm.trans (FileSystem.place_of_list hlist))]

/-- A walk that keeps links comes to nothing else. -/
theorem attainable_of_reached (hlinks : scope.followLinks = false)
    (h : Reached fs scope root d) : Attainable scope fs root r d := by
  induction h with
  | start =>
    obtain ⟨_, hlocate⟩ := FileSystem.locate_of_place hplace hdir
    exact ⟨[], trivial, trivial, Path.fits_of_fault? (FileSystem.fault?_of_locate hlocate), rfl⟩
  | next _ hleads ih =>
    obtain ⟨p, hp, hopen, hfits, rfl⟩ := ih
    obtain ⟨v, names, hlist, -⟩ := hleads.1
    obtain ⟨name, hname, hsearch, hfault, rfl⟩ :=
      (leads_under_iff (list_under hplace hdir hp hopen hfits hlist) hp hlinks).mp hleads
    exact ⟨name :: p, hname, ⟨hopen, hsearch⟩, Path.fits_of_fault? hfault, rfl⟩

/-! ### The walk that is refused nothing -/

omit hplace hdir in
/-- A strict walk that comes to its end can read what it has registered. -/
theorem Walk.Runs.readable {waiting : List Path} {w : Walk} {after : Walk × Option Refusal}
    (hrun : Runs fs scope policy true waiting w after) (hnone : after.2 = none) :
    ∀ d ∈ after.1.added, d ∈ w.added ∨ (fs.list d).isOk = true := by
  have registered {w w' : Walk} {dir d : Path}
      (register : (w.noted fs scope dir).register policy dir = (w', none)) (hd : d ∈ w'.added) :
      d ∈ w.added ∨ d = dir := by
    have hregisters := registers_register policy (w.noted fs scope dir) dir
    rw [register] at hregisters
    cases hregisters with
    | known => exact .inl hd
    | accepted =>
      rw [List.mem_append, List.mem_singleton] at hd
      exact hd
  induction hrun with
  | done => exact fun d hd => .inl hd
  | passed turns _ ih =>
    cases turns with
    | known => exact ih hnone
    | unreadable _ _ _ lenient => cases lenient
  | stopped => cases hnone
  | entered turns _ ih =>
    cases turns with
    | entered _ register list =>
      refine fun d hd => (ih hnone d hd).elim (fun hd => ?_) .inr
      refine (registered register hd).imp_right ?_
      rintro rfl
      rw [list]
      rfl

omit hplace hdir in
/-- From an empty coverage, what is registered is what the walk has added, none of it twice. -/
theorem directories_walk_empty (fs : FileSystem) (scope : Scope) (policy : Backend.Policy)
    (strict : Bool) (start : Path) :
    (walk fs scope policy strict {} start).1.coverage.directories =
        (walk fs scope policy strict {} start).1.added ∧
      (walk fs scope policy strict {} start).1.added.Nodup := by
  obtain ⟨⟨asked, hgrew⟩, -⟩ := grew_walk fs scope policy strict {} start
  refine ⟨hgrew.directories, (hgrew.distinct.sublist hgrew.accepted.sublist).imp ?_⟩
  rintro p _ hdistinct rfl
  exact hdistinct p.same_refl

/-- If a strict walk is not stopped, then it has registered exactly what it can attain. -/
theorem mem_added_iff (hlinks : scope.followLinks = false)
    (hnone : (walk fs scope Backend.acceptAll true {} root).2 = none) :
    d ∈ (walk fs scope Backend.acceptAll true {} root).1.added ↔
      Attainable scope fs root r d := by
  have hruns := runs_walk fs scope Backend.acceptAll true {} root
  obtain ⟨done, h⟩ := hruns.explored (.initial fs scope {} root) hnone
  have hread := hruns.readable hnone
  have hadded := (directories_walk_empty fs scope Backend.acceptAll true root).1
  generalize (walk fs scope Backend.acceptAll true {} root).1 = w at h hread hadded
  have hreached := fun d => h.mem_done_iff (d := d) hlinks
  have hattainable : ∀ d ∈ done, Attainable scope fs root r d := fun d hd =>
    attainable_of_reached hplace hdir hlinks ((hreached d).mp hd)
  have hdone : ∀ d ∈ w.coverage.directories, d ∈ done := fun d hd =>
    (h.origin d hd).resolve_left List.not_mem_nil
  -- Two attainable paths are spellings of each other only if they are one.
  have hmem : ∀ p, Covers scope fs root r p → root.under p ∈ done →
      root.under p ∈ w.coverage.directories := fun p hp hd => by
    obtain ⟨d, hd, hsame⟩ := isRegistered_iff.mp (h.registered _ hd)
    obtain ⟨q, hq, -, -, rfl⟩ := hattainable d (hdone d hd)
    rwa [(Path.same_under_iff root hq.isProper hp.isProper).mp hsame] at hd
  rw [← hadded] at hread ⊢
  refine ⟨fun hd => hattainable d (hdone d hd), ?_⟩
  rintro ⟨p, hp, hopen, hfits, rfl⟩
  induction p with
  | nil => exact hmem [] hp ((hreached root).mpr .start)
  | cons name p ih =>
    have hparent := ih hp.1 hopen.1 hfits.of_child
    obtain ⟨_, hlocate⟩ := locate_under hplace hdir hp hopen hfits
    have hok := (hread _ hparent).resolve_left List.not_mem_nil
    cases hlist : fs.list (root.under p) with
    | error e =>
      rw [hlist] at hok
      cases hok
    | ok found =>
      refine hmem _ hp ((hreached _).mpr (((hreached _).mp (hdone _ hparent)).next ?_))
      rw [leads_under_iff (list_under hplace hdir hp.1 hopen.1 hfits.of_child hlist) hp.1 hlinks]
      exact ⟨name, hp, hopen.2, FileSystem.fault?_of_locate hlocate, rfl⟩

/-- A strict walk that is refused nothing comes to its end exactly if it can read all that it can
attain. -/
theorem walk_eq_none_iff (hlinks : scope.followLinks = false) :
    (walk fs scope Backend.acceptAll true {} root).2 = none ↔
      ∀ d, Attainable scope fs root r d → (fs.list d).isOk = true := by
  have hruns := runs_walk fs scope Backend.acceptAll true {} root
  constructor
  · intro hnone d hd
    exact (hruns.readable hnone d ((mem_added_iff hplace hdir hlinks hnone).mpr hd)).resolve_left
      List.not_mem_nil
  · intro hread
    rw [Option.eq_none_iff_forall_ne_some]
    intro refusal hstopped
    rw [← Prod.eta (walk fs scope Backend.acceptAll true {} root), hstopped] at hruns
    obtain ⟨-, hreached, e, hlist, -⟩ := hruns.unreadable (by simpa using Reached.start)
    have hok := hread _ (attainable_of_reached hplace hdir hlinks hreached)
    rw [hlist] at hok
    cases hok

omit hplace hdir in
/-- There are finitely many attainable paths. -/
theorem exists_attainable (scope : Scope) (fs : FileSystem) (root : Path) (r : Place) :
    ∃ paths : List Path, ∀ d, d ∈ paths ↔ Attainable scope fs root r d := by
  classical
  refine ⟨(([] :: fs.entries.map fun e => e.1.take (e.1.length - r.length)).filter fun p =>
    Covers scope fs root r p ∧ Accessible fs r p ∧ (root.under p).Fits).map root.under,
    fun d => ?_⟩
  simp only [List.mem_map, List.mem_filter, decide_eq_true_eq, Attainable]
  refine ⟨fun ⟨p, ⟨_, hp, hopen, hfits⟩, heq⟩ => ⟨p, hp, hopen, hfits, heq⟩, ?_⟩
  rintro ⟨p, hp, hopen, hfits, rfl⟩
  refine ⟨p, ⟨?_, hp, hopen, hfits⟩, rfl⟩
  cases p with
  | nil => exact List.mem_cons_self
  | cons name p =>
    obtain ⟨_, haccess⟩ := FileSystem.hasDirectory_iff.mp hp.2.1
    have hmem := (fs.node?_eq_some_iff (by simp)).mp haccess
    refine List.mem_cons_of_mem _ (List.mem_map.mpr ⟨_, hmem, ?_⟩)
    rw [List.length_append, Nat.add_sub_cancel, List.take_left' rfl]

/-- A walk registers only what it can come to, also if it is stopped. -/
theorem attainable_of_mem_added (policy : Backend.Policy) (hlinks : scope.followLinks = false) :
    ∀ d ∈ (walk fs scope policy true {} root).1.added, Attainable scope fs root r d := by
  have hreached : ∀ d ∈ (walk fs scope policy true {} root).1.added, Reached fs scope root d := by
    refine walk_keeps (Q := Reached fs scope root)
      (P := fun w => ∀ d ∈ w.added, Reached fs scope root d)
      (R := fun w => ∀ d ∈ w.added, Reached fs scope root d)
      .next id (fun hdir _ _ hw d hd => ?_) (fun _ _ => id) id (fun _ => id) .start (by simp)
    rw [List.mem_append, List.mem_singleton] at hd
    rcases hd with hd | rfl
    · exact hw d hd
    · exact hdir
  exact fun d hd => attainable_of_reached hplace hdir hlinks (hreached d hd)

/-- The attainable paths are those that the walk registers which is refused nothing, and, if it is
stopped, some others. -/
theorem exists_rest (hlinks : scope.followLinks = false) : ∃ rest : List Path,
    ((walk fs scope Backend.acceptAll true {} root).1.added ++ rest).Nodup ∧
    (∀ d, d ∈ (walk fs scope Backend.acceptAll true {} root).1.added ++ rest ↔
      Attainable scope fs root r d) ∧
    ((walk fs scope Backend.acceptAll true {} root).2 = none → rest = []) := by
  obtain ⟨paths, hpaths⟩ := exists_attainable scope fs root r
  have hnodup := (directories_walk_empty fs scope Backend.acceptAll true root).2
  have hadded := attainable_of_mem_added hplace hdir Backend.acceptAll hlinks
  have hall := fun d => mem_added_iff (d := d) hplace hdir hlinks
  generalize walk fs scope Backend.acceptAll true {} root = after at *
  refine ⟨paths.dedup.filter (· ∉ after.1.added), ?_, fun d => ?_, fun hnone => ?_⟩
  · refine List.nodup_append.mpr ⟨hnodup, paths.nodup_dedup.filter _, ?_⟩
    rintro d hd _ hd' rfl
    exact of_decide_eq_true (List.mem_filter.mp hd').2 hd
  · rw [List.mem_append, List.mem_filter, List.mem_dedup, hpaths, decide_eq_true_eq]
    refine ⟨fun h => h.elim (hadded d) And.left, fun hd => ?_⟩
    exact (em _).imp_right fun hnew => ⟨hd, hnew⟩
  · rw [List.filter_eq_nil_iff]
    intro d hd
    rw [List.mem_dedup, hpaths] at hd
    simpa using (hall d hnone).mpr hd

end Rooted

/-- What comes of registering a root, to which belong the directories `order`. The watcher is asked
for them in this order. -/
structure Attains (fs : FileSystem) (policy : Backend.Policy) (c : Coverage) (order : List Path)
    (after : Coverage × Except Failure Nat) : Prop where
  /-- It succeeds exactly if the watcher accepts each directory in its turn and each can be read. -/
  succeeds : after.2.isOk = true ↔
    policy.refusal? c.backend order = none ∧ ∀ d ∈ order, (fs.list d).isOk = true
  /-- Then these directories are registered, and counted. -/
  registered : ∀ n, after.2 = .ok n → after.1.directories = order ∧ n = order.length ∧
    after.1.tally = c.tally.record (.directoriesRegistered n)
  /-- Otherwise it names one of them that was refused or cannot be read, and says why. -/
  failed : ∀ failure, after.2 = .error failure → ∃ d ∈ order, ∃ reason,
    failure = .watchSetup d reason ∧
      (policy.refusal? c.backend order = some ⟨d, reason⟩ ∨
        ∃ e, fs.list d = .error e ∧ reason = e.message)

theorem Attains.of_error {c : Coverage} {order : List Path} {after : Coverage × Except Failure Nat}
    {refusal : Refusal} (herror : after.2 = .error (.watchSetup refusal.path refusal.reason))
    (hmem : refusal.path ∈ order)
    (hwhy : policy.refusal? c.backend order = some refusal ∨
      ∃ e, fs.list refusal.path = .error e ∧ refusal.reason = e.message) :
    Attains fs policy c order after where
  succeeds := by
    rw [herror]
    refine iff_of_false Bool.false_ne_true fun ⟨hnone, hread⟩ => ?_
    rcases hwhy with hsome | ⟨e, hlist, -⟩
    · rw [hnone] at hsome
      cases hsome
    · have hok := hread _ hmem
      rw [hlist] at hok
      cases hok
  registered := fun n hok => by
    rw [herror] at hok
    cases hok
  failed := fun failure hfailure => by
    rw [herror] at hfailure
    cases hfailure
    exact ⟨refusal.path, hmem, refusal.reason, rfl, hwhy⟩

theorem registerRoot_of_none {c : Coverage} (h : (walk fs scope policy true c root).2 = none) :
    c.registerRoot fs scope policy root =
      ((walk fs scope policy true c root).1.coverage.record
          (.directoriesRegistered (walk fs scope policy true c root).1.added.length),
        .ok (walk fs scope policy true c root).1.added.length) := by
  rw [registerRoot, ← Prod.eta (walk fs scope policy true c root), h]

theorem registerRoot_of_some {c : Coverage} {refusal : Refusal}
    (h : (walk fs scope policy true c root).2 = some refusal) :
    (c.registerRoot fs scope policy root).2 =
      .error (.watchSetup refusal.path refusal.reason) := by
  rw [registerRoot, ← Prod.eta (walk fs scope policy true c root), h]

/-- **What registering a root comes to.** The directories that are attainable from a root can be
put in an order, without repetition, such that for every watcher and every coverage in which nothing
is registered yet, registering the root comes to these. -/
theorem registerRoot_attains (fs : FileSystem) (scope : Scope) (root : Path) (r : Place)
    (hlinks : scope.followLinks = false) (hplace : fs.place root = .ok r)
    (hdir : fs.HasDirectory r) :
    ∃ order : List Path, order.Nodup ∧ (∀ d, d ∈ order ↔ Attainable scope fs root r d) ∧
      ∀ (policy : Backend.Policy) (c : Coverage), c.directories = [] →
        Attains fs policy c order (c.registerRoot fs scope policy root) := by
  obtain ⟨rest, hnodup, hmem, hrest⟩ := exists_rest hplace hdir hlinks
  refine ⟨_, hnodup, hmem, fun policy c hc => ?_⟩
  have hread := walk_eq_none_iff hplace hdir hlinks
  have hfree := runs_walk fs scope Backend.acceptAll true {} root
  have hdirectories := (directories_walk_empty fs scope Backend.acceptAll true root).1
  obtain ⟨hstops, hsame⟩ := walk_eq fs scope policy true hc root
  generalize walk fs scope Backend.acceptAll true {} root = free at *
  have hrefusal := policy.refusal?_append c.backend free.1.added rest
  cases hrefused : policy.refusal? c.backend free.1.added with
  | some refusal =>
    rw [hrefused, Option.some_or] at hstops hrefusal
    exact .of_error (registerRoot_of_some hstops)
      (List.mem_append_left _ (Backend.Policy.mem_of_refusal? hrefused)) (.inl hrefusal)
  | none =>
    rw [hrefused, Option.none_or] at hstops
    obtain ⟨w, _ | refusal⟩ := free
    · obtain rfl := hrest rfl
      rw [registerRoot_of_none hstops, hsame hrefused]
      rw [List.append_nil] at hmem ⊢
      refine ⟨iff_of_true rfl ⟨hrefused, fun d hd => ?_⟩, ?_, nofun⟩
      · exact hread.mp rfl d ((hmem d).mp hd)
      · rintro n ⟨⟩
        exact ⟨hdirectories, rfl, rfl⟩
    · obtain ⟨-, hreached, hwhy⟩ := hfree.unreadable (by simpa using Reached.start)
      refine .of_error (registerRoot_of_some hstops) ((hmem _).mpr ?_) (.inr hwhy)
      exact attainable_of_reached hplace hdir hlinks hreached

/-! ### Three trees -/

/-- In `/w` there are a directory `a`, a link to it and a directory `t`. -/
def linkedTree : FileSystem :=
  (((FileSystem.empty.insert [] [119] (.directory {})).insert [[119]] [97]
    (.directory {})).insert [[119]] [108] (.link [97])).insert [[119]] [116] (.directory {})

/-- What is called `t` is ignored. -/
def withoutT : Scope := { ignore := ⟨[[.literal 't']]⟩ }

/-- From `/w`, with `t` ignored, `/w` and `/w/a` are attained. -/
theorem registerRoot_attains_linked :
    (∀ d, Attainable withoutT linkedTree ⟨[slash, 119]⟩ [[119]] d ↔
      d ∈ [⟨[slash, 119]⟩, ⟨[slash, 119, slash, 97]⟩]) ∧
    ∀ policy, Attains linkedTree policy {} [⟨[slash, 119]⟩, ⟨[slash, 119, slash, 97]⟩]
      (registerRoot linkedTree withoutT policy {} ⟨[slash, 119]⟩) := by
  obtain ⟨order, -, hmem, hattains⟩ :=
    registerRoot_attains linkedTree withoutT ⟨[slash, 119]⟩ [[119]] rfl (by decide) (by decide)
  have hregistered := (hattains Backend.acceptAll {} rfl).registered 2 (by decide)
  obtain rfl : order = [⟨[slash, 119]⟩, ⟨[slash, 119, slash, 97]⟩] :=
    hregistered.1.symm.trans (by decide)
  exact ⟨fun d => (hmem d).symm, fun policy => hattains policy {} rfl⟩

/-- The longest name. -/
def longName : Name := List.replicate maxNameLength 110

/-- In `/w` there is one directory, with the longest name. -/
def longTree : FileSystem :=
  (FileSystem.empty.insert [] [119] (.directory {})).insert [[119]] longName (.directory {})

/-- The directory `/w`, spelled with many slashes. -/
def paddedRoot : Path := ⟨[slash, 119] ++ List.replicate 3888 slash⟩

/-- In `/w` there is a directory `a`. Of `/w` the names can be read, but nothing can be looked
up. -/
def shutTree : FileSystem :=
  let w : Access := { searchable := false }
  (FileSystem.empty.insert [] [119] (.directory w)).insert [[119]] [97] (.directory {})

/-- Directories that are to be covered, but cannot be read under their paths, without which
registering the root succeeds: one whose path is too long below the padded root, and one in a
directory that cannot be searched. -/
theorem registerRoot_passes_over :
    (longTree.place paddedRoot = .ok [[119]] ∧
      Covers {} longTree paddedRoot [[119]] [longName] ∧
      longTree.list (paddedRoot.under [longName]) = .error .nameTooLong ∧
      (registerRoot longTree {} Backend.acceptAll {} paddedRoot).2 = .ok 1 ∧
      (registerRoot longTree {} Backend.acceptAll {} paddedRoot).1.directories = [paddedRoot]) ∧
    shutTree.place ⟨[slash, 119]⟩ = .ok [[119]] ∧
      Covers {} shutTree ⟨[slash, 119]⟩ [[119]] [[97]] ∧
      shutTree.list ⟨[slash, 119, slash, 97]⟩ = .error .denied ∧
      (registerRoot shutTree {} Backend.acceptAll {} ⟨[slash, 119]⟩).2 = .ok 1 ∧
      (registerRoot shutTree {} Backend.acceptAll {} ⟨[slash, 119]⟩).1.directories =
        [⟨[slash, 119]⟩] := by
  refine ⟨⟨?_, ⟨trivial, ?_, rfl⟩, ?_, ?_⟩, ?_, ⟨trivial, ?_, rfl⟩, ?_, ?_⟩
  all_goals decide +kernel

end Coverage

end WorkspaceWatch
