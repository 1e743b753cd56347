import WorkspaceWatch.Proofs.Coverage.Alias
import WorkspaceWatch.Proofs.Coverage.Extent
import WorkspaceWatch.Proofs.FileSystem.Trail
import WorkspaceWatch.Proofs.Text.Utf8

/-!
# Following links

Where links are followed, a directory may have infinitely many paths, and a walk enters it under the
first of them that it comes to. So what a walk covers is told by directories and not by paths: those
which are connected to the root by entries that are not ignored and by the links behind them
(`Coverage.Connected`). If it is names that decide what is ignored, no path is more than the
operating system takes, and what is registered has canonical paths, then a walk registers each of
these directories under exactly one path, and nothing else (`Coverage.registerRoot_covers_once`).
-/

namespace WorkspaceWatch

/-- The operating system takes the path: it is not too long and, if it leads to a directory, it does
not do so through too many links. -/
structure FileSystem.Takes (fs : FileSystem) (p : Path) : Prop where
  fits : p.Fits
  links : ∀ k v, fs.PathTrail k p v → k ≤ maxLinks

/-- A path is taken if resolving it does not end for the number of its links. -/
theorem FileSystem.takes_of_locate {fs : FileSystem} {p : Path} (hfault : p.fault? = none)
    (hbase : fs.HasDirectory (fs.base p)) (hlocate : fs.locate .followed p ≠ .error .tooManyLinks) :
    fs.Takes p where
  fits := Path.fits_of_fault? hfault
  links := fun _ _ h => h.le_maxLinks hfault hbase hlocate

/-- A path that is taken leads to where its last name does, from the directory before it. -/
theorem FileSystem.Takes.locate_child {fs : FileSystem} {d : Path} {n : Name} {u v : Place}
    {access : Access} {k : Nat} (h : fs.Takes (d.child n))
    (hdir : fs.locate .followed d = .ok (.entry v (.directory access))) (hn : isProperName n = true)
    (htrail : fs.Trail k v [n] u) :
    ∃ access, fs.locate .followed (d.child n) = .ok (.entry u (.directory access)) := by
  obtain ⟨k₀, htrails⟩ := exists_trail_child_iff hdir hn
  have hchild : fs.PathTrail (k + k₀) (d.child n) u := (htrails _ u).mpr ⟨k, rfl, htrail⟩
  have hbase : fs.HasDirectory (fs.base (d.child n)) := by
    rw [base_child d hn]
    exact hasDirectory_base_of_locate hdir
  have hfault := Path.fault?_child (fault?_of_locate hdir) hn h.fits
  exact locate_of_trail hfault hbase hchild (h.links _ _ hchild)

/-- If no directory in the table is unreadable, then none is. -/
theorem FileSystem.isReadable_of_entries {fs : FileSystem}
    (h : ∀ e ∈ fs.entries, e.2.isDirectory = true → e.2.isReadable = true) {v : Place}
    (hv : fs.HasDirectory v) : fs.isReadable v = true := by
  cases v with
  | nil => rfl
  | cons name v =>
    obtain ⟨access, haccess⟩ := hasDirectory_iff.mp hv
    rw [isReadable, haccess]
    exact h _ ((fs.node?_eq_some_iff (List.cons_ne_nil _ _)).mp haccess) rfl

theorem FileSystem.isOk_list {fs : FileSystem} {d : Path} {v : Place} {access : Access}
    (hlocate : fs.locate .followed d = .ok (.entry v (.directory access)))
    (hread : fs.isReadable v = true) : (fs.list d).isOk = true := by
  rw [isReadable, node?_of_locate hlocate] at hread
  rw [list_eq_ok_iff.mpr ⟨⟨access, hlocate, hread⟩, rfl⟩]
  rfl

theorem FileSystem.list_of_isOk {fs : FileSystem} {d : Path} {v : Place}
    (h : (fs.list d).isOk = true) (hplace : fs.place d = .ok v) :
    fs.list d = .ok (v, fs.names v) := by
  cases hlist : fs.list d with
  | error e =>
    rw [hlist] at h
    cases h
  | ok found =>
    obtain ⟨v', names⟩ := found
    obtain rfl := (list_eq_ok_iff.mp hlist).2
    rw [Except.ok.inj (hplace.symm.trans (place_of_list hlist))]

namespace Scope

variable {scope : Scope} {root : Path}

/-- The scope with links followed. -/
def following (scope : Scope) : Scope := { scope with followLinks := true }

/-- The scope with links kept. -/
def keeping (scope : Scope) : Scope := { scope with followLinks := false }

/-- Below the root it is the name of an entry that decides whether it is ignored. -/
def JudgesNames (scope : Scope) (root : Path) : Prop :=
  ∀ (d : Path) (n : Name), d.Within root → isProperName n = true →
    scope.ignore.ignores (d.child n) = scope.ignore.ignores (root.child n)

/-- Rules that look at nothing but the last component of a path judge names. -/
theorem judgesNames_of_getLast? (root : Path) (h : ∀ p q : Path,
    p.components.getLast? = q.components.getLast? →
      scope.ignore.ignores p = scope.ignore.ignores q) : scope.JudgesNames root :=
  fun d n _ hn => h _ _ (by simp [Path.components_child _ hn])

/-- Texts without a slash judge names below an absolute root: none of them is a whole path there. -/
theorem judgesNames_of_literals (hroot : root.isAbsolute = true)
    (h : ∀ pattern ∈ scope.ignore.patterns, ∃ cs : List Char,
      '/' ∉ cs ∧ pattern = cs.map .literal) :
    scope.JudgesNames root := by
  intro d n hd hn
  have hcovers : ∀ d : Path, d.isAbsolute = true → ∀ pattern ∈ scope.ignore.patterns,
      IgnoreRules.covers pattern (d.child n) = Glob.accepts pattern (Utf8.decodeLossy n) := by
    intro d hd pattern hpattern
    have hname : (d.child n).name? = some n := by
      rw [Path.name?, Path.components_child d hn, List.getLast?_concat]
    have hwhole : Glob.accepts pattern (Utf8.decodeLossy (d.child n).bytes) = false := by
      obtain ⟨cs, hcs, rfl⟩ := h pattern hpattern
      rw [← Path.isAbsolute_child d hn, Path.isAbsolute, decide_eq_true_eq] at hd
      obtain ⟨bs, hbs⟩ := List.head?_eq_some_iff.mp hd
      rw [Bool.eq_false_iff, ne_eq, Glob.accepts_literals_iff, hbs, Utf8.decodeLossy,
        Utf8.pieces_one (by decide)]
      rintro rfl
      exact hcs List.mem_cons_self
    rw [IgnoreRules.covers, hname, hwhole, Option.any_some, Bool.or_false]
  rw [Bool.eq_iff_iff, IgnoreRules.ignores_iff, IgnoreRules.ignores_iff]
  refine exists_congr fun pattern => and_congr_right fun hpattern => ?_
  rw [hcovers d (Path.isAbsolute_of_within hd hroot) pattern hpattern,
    hcovers root hroot pattern hpattern]

/-- A walk that follows links enters what leads to a directory. -/
theorem enters_iff_of_following {fs : FileSystem} {p : Path} (hlinks : scope.followLinks = true) :
    scope.enters fs p = true ↔
      ∃ v access, fs.locate .followed p = .ok (.entry v (.directory access)) := by
  rw [enters, FileSystem.isDirectoryAt, hlinks, if_pos rfl]
  constructor
  · intro h
    split at h
    · next v node hlocate =>
      cases node with
      | directory access => exact ⟨v, access, hlocate⟩
      | file | link => cases h
    · cases h
  · rintro ⟨v, access, hlocate⟩
    rw [hlocate]
    rfl

end Scope

namespace Coverage

variable {fs : FileSystem} {scope : Scope} {policy : Backend.Policy} {strict : Bool} {c : Coverage}
  {root d d' p : Path} {r u v : Place} {n : Name} {k : Nat}

/-! ### Paths that a walk comes to -/

/-- What a directory shows is one of its entries. -/
theorem Shows.exists_child (h : Shows fs scope d p) : ∃ v n,
    fs.list d = .ok (v, fs.names v) ∧ n ∈ fs.names v ∧ isProperName n = true ∧ d.child n = p ∧
      scope.ignore.ignores p = false := by
  obtain ⟨v, names, hlist, hkept⟩ := h
  obtain rfl := (FileSystem.list_eq_ok_iff.mp hlist).2
  rw [Scope.kept, List.mem_filter, List.mem_map] at hkept
  obtain ⟨⟨n, hn, rfl⟩, hkept⟩ := hkept
  obtain ⟨node, hnode⟩ := fs.mem_names_iff.mp hn
  exact ⟨v, n, hlist, hn, fs.isProperName_of_node? hnode, rfl, by simpa using hkept⟩

/-- Whatever a walk comes to, it has spelled by joining names to the root. -/
theorem Reached.exists_under (h : Reached fs scope root d) :
    ∃ p : Place, p.IsProper ∧ root.under p = d := by
  induction h with
  | start => exact ⟨[], fun _ hn => absurd hn List.not_mem_nil, rfl⟩
  | next _ hleads ih =>
    obtain ⟨p, hp, rfl⟩ := ih
    obtain ⟨v, n, -, -, hn, rfl, -⟩ := hleads.1.exists_child
    refine ⟨n :: p, fun m hm => ?_, rfl⟩
    rcases List.mem_cons.mp hm with rfl | hm
    · exact hn
    · exact hp m hm

theorem Reached.within (h : Reached fs scope root d) : d.Within root := by
  obtain ⟨p, hp, rfl⟩ := h.exists_under
  exact (Path.within_under_iff root hp fun _ hn => absurd hn List.not_mem_nil).mpr List.nil_suffix

/-- So it has no two spellings of one path. -/
theorem Reached.eq_of_same {scope' : Scope} (h : Reached fs scope root d)
    (h' : Reached fs scope' root d') (hsame : d.Same d') : d = d' := by
  obtain ⟨p, hp, rfl⟩ := h.exists_under
  obtain ⟨p', hp', rfl⟩ := h'.exists_under
  rw [(Path.same_under_iff root hp hp').mp hsame]

/-- A directory that a walk takes for another one has the same place, or the same path. -/
theorem TakenFor.place_eq {access access' : Access} (h : TakenFor fs scope d p)
    (hd : fs.locate .followed d = .ok (.entry v (.directory access)))
    (hp : fs.locate .followed p = .ok (.entry u (.directory access'))) : v = u ∨ d.Same p := by
  rcases h with rfl | ⟨-, hsame⟩
  · exact .inr d.same_refl
  have hv := FileSystem.node?_of_locate hd
  have hu := FileSystem.node?_of_locate hp
  rw [Walk.landmark, Walk.landmark] at hsame
  -- A canonical path may also be the path at hand of a directory that has none.
  obtain hok | ⟨e, he, -⟩ := FileSystem.canonicalize_of_locate hd <;>
    obtain hok' | ⟨e', he', -⟩ := FileSystem.canonicalize_of_locate hp
  · rw [hok, hok'] at hsame
    exact .inl (Place.eq_of_same_path (FileSystem.isProper_of_node? hv)
      (FileSystem.isProper_of_node? hu) hsame)
  · rw [hok, he'] at hsame
    have hdir := FileSystem.hasDirectory_iff.mpr ⟨access, hv⟩
    exact .inl (FileSystem.place_eq_of_same_path hp hdir hsame.symm).symm
  · rw [he, hok'] at hsame
    have hdir := FileSystem.hasDirectory_iff.mpr ⟨access', hu⟩
    exact .inl (FileSystem.place_eq_of_same_path hd hdir hsame)
  · rw [he, he'] at hsame
    exact .inr hsame

/-! ### Connected directories -/

/-- The directory at `v` is **connected** to the root, at `r`: one comes to it from there through
entries that are not ignored, each of which is a directory or a link that leads to one. -/
inductive Connected (fs : FileSystem) (scope : Scope) (root : Path) (r : Place) : Place → Prop
  | root : Connected fs scope root r r
  | next {v u : Place} {n : Name} {k : Nat} (connected : Connected fs scope root r v)
      (listed : n ∈ fs.names v) (kept : scope.ignore.ignores (root.child n) = false)
      (trail : fs.Trail k v [n] u) : Connected fs scope root r u

theorem Connected.hasDirectory (hdir : fs.HasDirectory r) (h : Connected fs scope root r v) :
    fs.HasDirectory v := by
  cases h with
  | root => exact hdir
  | next _ _ _ trail => exact trail.hasDirectory

section Rooted

variable (hplace : fs.place root = .ok r) (hdir : fs.HasDirectory r)
  (hlinks : scope.followLinks = true)
include hplace hdir hlinks

/-- Whatever a walk comes to is the path of a directory. -/
theorem Reached.exists_locate (h : Reached fs scope root d) :
    ∃ v access, fs.locate .followed d = .ok (.entry v (.directory access)) := by
  cases h with
  | start => exact ⟨r, FileSystem.locate_of_place hplace hdir⟩
  | next _ hleads => exact (Scope.enters_iff_of_following hlinks).mp hleads.2

/-- If directories can be read, then so can all that a walk comes to. -/
theorem Reached.isOk_list (hread : ∀ v, fs.HasDirectory v → fs.isReadable v = true)
    (h : Reached fs scope root d) : (fs.list d).isOk = true := by
  obtain ⟨v, access, hlocate⟩ := h.exists_locate hplace hdir hlinks
  have hnode := FileSystem.node?_of_locate hlocate
  exact FileSystem.isOk_list hlocate (hread v (FileSystem.hasDirectory_iff.mpr ⟨access, hnode⟩))

/-- What was met under some path lies where this path leads. -/
theorem Met.exists_place {known : List Path} (h : Met fs scope known p)
    (hknown : ∀ d ∈ known, Reached fs scope root d) (hp : Reached fs scope root p)
    (hv : fs.place p = .ok v) : ∃ d ∈ known, fs.place d = .ok v := by
  obtain ⟨d, hd, htaken⟩ := h
  obtain ⟨u, _, hlocate⟩ := (hknown d hd).exists_locate hplace hdir hlinks
  obtain ⟨u', _, hlocate'⟩ := hp.exists_locate hplace hdir hlinks
  rw [FileSystem.place, hlocate'] at hv
  cases hv
  refine ⟨d, hd, ?_⟩
  rcases htaken.place_eq hlocate hlocate' with rfl | hsame
  · rw [FileSystem.place, hlocate]
  · rw [(hknown d hd).eq_of_same hp hsame, FileSystem.place, hlocate']

/-- If names are judged, a walk comes to nothing but connected directories. -/
theorem Reached.exists_connected (hnames : scope.JudgesNames root)
    (h : Reached fs scope root d) :
    ∃ v access, fs.locate .followed d = .ok (.entry v (.directory access)) ∧
      Connected fs scope root r v := by
  induction h with
  | start =>
    obtain ⟨access, hlocate⟩ := FileSystem.locate_of_place hplace hdir
    exact ⟨r, access, hlocate, .root⟩
  | @next dir p hreached hleads ih =>
    obtain ⟨v, access, hlocate, hv⟩ := ih
    obtain ⟨u, access', hlocate'⟩ := (Scope.enters_iff_of_following hlinks).mp hleads.2
    obtain ⟨v', n, hlist, hn, hproper, rfl, hkept⟩ := hleads.1.exists_child
    obtain rfl : v = v' := by
      have hplace' := FileSystem.place_of_list hlist
      rw [FileSystem.place, hlocate] at hplace'
      exact Except.ok.inj hplace'
    obtain ⟨k₀, htrails⟩ := FileSystem.exists_trail_child_iff hlocate hproper
    obtain ⟨K, -, htrail⟩ := FileSystem.exists_trail_of_locate hlocate'
    obtain ⟨k, -, hk⟩ := (htrails K u).mp htrail
    rw [hnames dir n hreached.within hproper] at hkept
    exact ⟨u, access', hlocate', hv.next hn hkept hk⟩

omit hplace hdir hlinks in
/-- A walk that was stopped by nothing has registered exactly the directories that are done. -/
theorem Explored.mem_directories_iff {done : List Path} {w : Walk} (hc : c.directories = [])
    (h : Explored fs scope c root done [] w) : d ∈ w.coverage.directories ↔ d ∈ done := by
  have horigin : ∀ d ∈ w.coverage.directories, d ∈ done := fun d hd =>
    (h.origin d hd).resolve_left (by simp [hc])
  refine ⟨horigin d, fun hd => ?_⟩
  obtain ⟨e, he, hsame⟩ := isRegistered_iff.mp (h.registered d hd)
  have hreached := fun d hd => h.reached d (List.mem_append_left _ hd)
  rwa [(hreached e (horigin e he)).eq_of_same (hreached d hd) hsame] at he

omit hplace hdir hlinks in
/-- What a walk was done with or not, it is not registered by it under another spelling. -/
theorem Explored.registered_or_mem {scope' : Scope} {done : List Path} {w : Walk}
    (h : Explored fs scope c root done [] w) (hp : Reached fs scope' root p)
    (hregistered : w.coverage.isRegistered p = true) : c.isRegistered p = true ∨ p ∈ done := by
  obtain ⟨e, he, hsame⟩ := isRegistered_iff.mp hregistered
  rcases h.origin e he with hc | hdone
  · exact .inl (isRegistered_iff.mpr ⟨e, hc, hsame⟩)
  · have hreached : Reached fs scope root e := h.reached e (List.mem_append_left _ hdone)
    exact .inr (hreached.eq_of_same hp hsame ▸ hdone)

/-- One comes to every connected directory under a path of its own, if the operating system takes
the paths that are found on the way. -/
theorem Explored.exists_place {done : List Path} {w : Walk}
    (h : Explored fs scope c root done [] w) (hnames : scope.JudgesNames root)
    (hread : ∀ d ∈ done, (fs.list d).isOk = true) (htakes : ∀ p ∈ w.found, fs.Takes p)
    (hv : Connected fs scope root r v) : ∃ d ∈ done, fs.place d = .ok v := by
  have hreached : ∀ d ∈ done ++ [], Reached fs scope root d := h.reached
  have hmet : ∀ {p u}, Met fs scope (done ++ []) p → Reached fs scope root p →
      fs.place p = .ok u → ∃ d ∈ done, fs.place d = .ok u := fun hp => by
    rw [List.append_nil] at hp hreached
    exact hp.exists_place hplace hdir hlinks hreached
  induction hv with
  | root => exact hmet h.begun .start hplace
  | @next v u n k _ hn hkept htrail ih =>
    obtain ⟨d, hd, hplace'⟩ := ih
    have hd' : Reached fs scope root d := h.reached d (List.mem_append_left _ hd)
    have hlist := FileSystem.list_of_isOk (hread d hd) hplace'
    obtain ⟨⟨_, hlocate, -⟩, -⟩ := FileSystem.list_eq_ok_iff.mp hlist
    obtain ⟨node, hnode⟩ := fs.mem_names_iff.mp hn
    have hproper := fs.isProperName_of_node? hnode
    rw [← hnames d n hd'.within hproper] at hkept
    have hshows : Shows fs scope d (d.child n) := ⟨v, _, hlist, List.mem_filter.mpr
      ⟨List.mem_map_of_mem hn, by simpa using hkept⟩⟩
    -- The path that is found takes as many links as the trail behind it needs.
    have htaken : fs.Takes (d.child n) := htakes _ ((h.found _).mpr ⟨d, hd, hshows⟩)
    obtain ⟨access, hu⟩ := htaken.locate_child hlocate hproper htrail
    have henters := (Scope.enters_iff_of_following hlinks).mpr ⟨u, access, hu⟩
    have hleads : Leads fs scope d (d.child n) := ⟨hshows, henters⟩
    exact hmet (h.followed d hd _ hleads) (hd'.next hleads) (by rw [FileSystem.place, hu])

end Rooted

/-- **Each connected directory is registered once.** Links are followed, names decide what is
ignored, the watcher refuses nothing, and connected directories can be read. The operating system
takes every path that the walk finds, and every path that it registers has a canonical path. Then
the walk comes to its end without a bound, the paths that are registered lead to different
directories, and these are the ones that are connected to the root. -/
theorem registerRoot_covers_once (fs : FileSystem) (scope : Scope) (root : Path) (r : Place)
    (c : Coverage) (hc : c.directories = []) (hlinks : scope.followLinks = true)
    (hnames : scope.JudgesNames root) (hplace : fs.place root = .ok r) (hdir : fs.HasDirectory r)
    (hread : ∀ v, Connected fs scope root r v → fs.isReadable v = true)
    (htakes : ∀ p ∈ (walk fs scope Backend.acceptAll true c root).1.found, fs.Takes p)
    (hnamed : ∀ d ∈ (walk fs scope Backend.acceptAll true c root).1.added, ¬fs.IsUnnamed d) :
    Walk.Runs fs scope Backend.acceptAll true [root] { coverage := c }
        (walk fs scope Backend.acceptAll true c root) ∧
      ∃ after n, c.registerRoot fs scope Backend.acceptAll root = (after, .ok n) ∧
        after.directories.length = n ∧
        after.directories.Pairwise (fun d d' => fs.place d ≠ fs.place d') ∧
        (∀ d ∈ after.directories, ∃ v, fs.place d = .ok v ∧ Connected fs scope root r v) ∧
        ∀ v, Connected fs scope root r v → ∃ d ∈ after.directories, fs.place d = .ok v := by
  refine ⟨runs_walk fs scope Backend.acceptAll true c root, ?_⟩
  have hlist : ∀ d, Reached fs scope root d → (fs.list d).isOk = true := fun d hd => by
    obtain ⟨v, _, hlocate, hv⟩ := hd.exists_connected hplace hdir hlinks hnames
    exact FileSystem.isOk_list hlocate (hread v hv)
  obtain ⟨w, done, hwalk, hexplored⟩ := explored_walk c root fun (_ : true = true) => hlist
  obtain ⟨⟨asked, hgrew⟩, -⟩ := grew_walk fs scope Backend.acceptAll true c root
  have hapart := pairwise_added fs hlinks Backend.acceptAll true c root
  rw [hwalk] at htakes hnamed hgrew hapart
  have hdirectories : w.coverage.directories = w.added := by
    rw [hgrew.directories, hc, List.nil_append]
  have hreached : ∀ d ∈ done, Reached fs scope root d := fun d hd =>
    hexplored.reached d (List.mem_append_left _ hd)
  have hdone := fun d => (hexplored.mem_directories_iff (d := d) hc)
  have hplaces : ∀ d ∈ w.coverage.directories, ∃ v, fs.place d = .ok v ∧
      Connected fs scope root r v := fun d hd => by
    obtain ⟨v, _, hlocate, hv⟩ :=
      (hreached d ((hdone d).mp hd)).exists_connected hplace hdir hlinks hnames
    exact ⟨v, by rw [FileSystem.place, hlocate], hv⟩
  refine ⟨w.coverage.record (.directoriesRegistered w.added.length), w.added.length, ?_, ?_, ?_,
    hplaces, fun v hv => ?_⟩
  · rw [registerRoot, hwalk]
  · exact congrArg List.length hdirectories
  · show w.coverage.directories.Pairwise _
    rw [hdirectories] at hplaces ⊢
    refine hapart.imp_of_mem fun {d d'} hd hd' hdiffer heq => ?_
    obtain ⟨v, hv, -⟩ := hplaces d hd
    exact (hdiffer ⟨v, hv, heq ▸ hv⟩).elim (hnamed d hd) (hnamed d' hd')
  · obtain ⟨d, hd, hv⟩ := hexplored.exists_place hplace hdir hlinks hnames
      (fun d hd => hlist d (hreached d hd)) htakes hv
    exact ⟨d, (hdone d).mpr hd, hv⟩

/-- In `/w` there are a directory `a`, from which a link leads back, a link to `a`, a link out to
`/o`, a link to nothing, and a directory `t`. -/
def windingTree : FileSystem :=
  let outside := (FileSystem.empty.insert [] [111] (.directory {})).insert [[111]] [115]
    (.directory {})
  let inside := (outside.insert [] [119] (.directory {})).insert [[119]] [97] (.directory {})
  ((((inside.insert [[97], [119]] [117] (.link [dot, dot])).insert [[119]] [108]
    (.link [97])).insert [[119]] [111] (.link [slash, 111])).insert [[119]] [103]
    (.link [120])).insert [[119]] [116] (.directory {})

theorem isReadable_winding {v : Place} (hv : windingTree.HasDirectory v) :
    windingTree.isReadable v = true :=
  FileSystem.isReadable_of_entries (by decide +kernel) hv

theorem judgesNames_withoutT : withoutT.JudgesNames sampleRoot :=
  Scope.judgesNames_of_literals rfl fun _ hpattern =>
    ⟨['t'], by decide, List.mem_singleton.mp hpattern⟩

theorem takes_winding :
    ∀ p ∈ (walk windingTree withoutT.following Backend.acceptAll true {} sampleRoot).1.found,
      windingTree.Takes p := fun p hp =>
  FileSystem.takes_of_locate (by revert p; decide +kernel) (by revert p; decide +kernel)
    (by revert p; decide +kernel)

theorem named_winding :
    ∀ d ∈ (walk windingTree withoutT.following Backend.acceptAll true {} sampleRoot).1.added,
      ¬windingTree.IsUnnamed d := by
  have hok :
      ∀ d ∈ (walk windingTree withoutT.following Backend.acceptAll true {} sampleRoot).1.added,
        (windingTree.canonicalize d).isOk = true := by decide +kernel
  rintro d hd ⟨e, he⟩
  have hok := hok d hd
  rw [he] at hok
  cases hok

/-- With `t` ignored, four directories are connected to `/w`. Each is registered once, `/w/a` under
the path `/w/l`. -/
theorem registerRoot_covers_once_winding :
    (∀ v, Connected windingTree withoutT.following sampleRoot [[119]] v ↔
      v ∈ [[[119]], [[111]], [[115], [111]], [[97], [119]]]) ∧
    (registerRoot windingTree withoutT.following Backend.acceptAll {} sampleRoot).1.directories =
      [sampleRoot, sampleRoot.under [[111]], sampleRoot.under [[115], [111]],
        sampleRoot.under [[108]]] := by
  have hdir : windingTree.HasDirectory [[119]] := by decide +kernel
  obtain ⟨-, after, n, hafter, -, -, hsound, hcomplete⟩ :=
    registerRoot_covers_once windingTree withoutT.following sampleRoot [[119]] {} rfl rfl
      judgesNames_withoutT (by decide +kernel) hdir
      (fun v hv => isReadable_winding (hv.hasDirectory hdir)) takes_winding named_winding
  have hdirectories : (registerRoot windingTree withoutT.following Backend.acceptAll {}
      sampleRoot).1.directories = [sampleRoot, sampleRoot.under [[111]],
        sampleRoot.under [[115], [111]], sampleRoot.under [[108]]] := by decide +kernel
  have hplaces : (registerRoot windingTree withoutT.following Backend.acceptAll {}
      sampleRoot).1.directories.map windingTree.place =
        [[[119]], [[111]], [[115], [111]], [[97], [119]]].map .ok := by decide +kernel
  rw [hafter] at hdirectories hplaces ⊢
  refine ⟨fun v => ⟨fun hv => ?_, fun hv => ?_⟩, hdirectories⟩
  · obtain ⟨d, hd, hplace⟩ := hcomplete v hv
    have hmem : windingTree.place d ∈ after.directories.map windingTree.place :=
      List.mem_map_of_mem hd
    rw [hplaces, hplace] at hmem
    simpa using hmem
  · have hmem : .ok v ∈ after.directories.map windingTree.place := by
      rw [hplaces]
      exact List.mem_map_of_mem hv
    obtain ⟨d, hd, hplace⟩ := List.mem_map.mp hmem
    obtain ⟨v', hplace', hconnected⟩ := hsound d hd
    rwa [Except.ok.inj (hplace.symm.trans hplace')]

end Coverage

end WorkspaceWatch
