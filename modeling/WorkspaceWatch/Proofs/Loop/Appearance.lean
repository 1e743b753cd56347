import WorkspaceWatch.Proofs.Coverage.Alias
import WorkspaceWatch.Proofs.Coverage.Interruption
import WorkspaceWatch.Proofs.Loop.Conservation

/-!
# A directory appears

When a directory has appeared, its creation is queued and behind it that of everything that is in it
already. What this is, and in which order it stands, is told by the tour of the directory: what is
visible in it and listed, a directory before all that is in it, and nothing twice
(`Intake.appears`). The tour does not depend on what was registered before. So it makes no
difference if a part of the tree is registered already.

Directories whose paths are longer than the operating system takes them, and those in a directory
that cannot be searched, are reported like any other entry, but they are not registered
(`Intake.appears_in_part`).
-/

namespace WorkspaceWatch

namespace Coverage

variable {fs : FileSystem} {scope : Scope} {c : Coverage} {d x y : Path} {r p : Place}
  {tour : List Path}

/-! ### The order in which entries are found -/

/-- If an entry of a directory lies within an entry of another one, then so does the directory lie
within the other. -/
theorem Shows.within_of_within {e : Path} (hx : Shows fs scope d x) (hy : Shows fs scope e y)
    (h : x.Within y) : d.Within e := by
  obtain ⟨v, n, -, -, hn, rfl, -⟩ := hx.exists_child
  obtain ⟨v', m, -, -, hm, rfl, -⟩ := hy.exists_child
  exact Path.within_of_child_within_child hn hm h

/-- If no directory lies within a later one, then no entry that they show does. -/
theorem pairwise_flatMap_shown (h : tour.Pairwise fun d e => ¬d.Within e) :
    (tour.flatMap (shown fs scope)).Pairwise fun x y => ¬x.Within y := by
  refine List.pairwise_flatMap.mpr ⟨fun d _ => (pairwise_shown fs scope d).imp And.left, ?_⟩
  refine h.imp fun hnot x hx y hy hwithin => hnot ?_
  exact (mem_shown_iff.mp hx).within_of_within (mem_shown_iff.mp hy) hwithin

/-! ### What is registered -/

section Rooted

variable (hplace : fs.place d = .ok r) (hdir : fs.HasDirectory r)
  (hlinks : scope.followLinks = false)
include hplace hdir hlinks

/-- The directories of a tour are the one at which it begins and those directories which are among
the entries that they show, as far as their paths fit and they can be looked up. -/
theorem Tours.mem_iff_shown (htour : Tours fs scope [d] tour) : x ∈ tour ↔ x = d ∨
    ∃ p, d.under p ∈ tour.flatMap (shown fs scope) ∧ fs.HasDirectory (p ++ r) ∧
      fs.isSearchable (p.tail ++ r) = true ∧ (d.under p).Fits ∧ d.under p = x := by
  rw [htour.mem_iff_covers hplace hdir hlinks]
  simp only [htour.mem_flatMap_shown hplace hdir hlinks]
  constructor
  · rintro ⟨_ | ⟨n, p⟩, hp, hreach, hfits, rfl⟩
    · exact .inl rfl
    · obtain ⟨hreach, hread, hsearch, hfits'⟩ := hreach
      have hvisible := hp.visible (List.cons_ne_nil n p)
      exact .inr ⟨n :: p, ⟨n :: p, hvisible, ⟨hreach, hread, hfits'⟩, rfl⟩, hp.2.1, hsearch, hfits,
        rfl⟩
  · rintro (rfl | ⟨p, ⟨q, hq, hlisted, heq⟩, hp, hsearch, hfits, rfl⟩)
    · obtain ⟨_, hlocate⟩ := FileSystem.locate_of_place hplace hdir
      exact ⟨[], trivial, trivial, Path.fits_of_fault? (FileSystem.fault?_of_locate hlocate), rfl⟩
    · obtain ⟨_, hnode⟩ := FileSystem.hasDirectory_iff.mp hp
      obtain rfl : q = p := (d.same_under_iff hq.isProper (isProper_of_node?_append hnode)).mp
        (congrArg Path.components heq)
      cases q with
      | nil => exact hq.elim
      | cons n q =>
        obtain ⟨hreach, hread, hfits'⟩ := hlisted
        exact ⟨n :: q, ⟨hq.1, hp, hq.2.2⟩, ⟨hreach, hread, hsearch, hfits'⟩, hfits, rfl⟩

end Rooted

/-- A watcher that refuses nothing registers the whole tour of what has appeared, whatever was
registered before. -/
theorem Tours.registerCreated_acceptAll (hlinks : scope.followLinks = false)
    (htour : Tours fs scope [d] tour) (c : Coverage) :
    (c.registerCreated fs scope Backend.acceptAll d).2 = tour.flatMap (shown fs scope) ∧
      ∀ x, (c.registerCreated fs scope Backend.acceptAll d).1.isRegistered x = true ↔
        c.isRegistered x = true ∨ ∃ e ∈ tour, e.Same x := by
  have hstops := htour.stops_walk hlinks (fun _ => none) c
  have hfound := hstops.found
  have hdirectories := hstops.directories
  rw [takeWhile_admits_none] at hfound hdirectories
  refine ⟨hfound, fun x => ?_⟩
  rw [isRegistered_iff, directories_registerCreated]
  change (∃ e ∈ (walk fs scope (fun _ _ => none) false c d).1.coverage.directories, e.Same x) ↔ _
  rw [hdirectories, isRegistered_iff]
  simp only [List.mem_append, or_and_right, exists_or, List.mem_filter]
  refine or_congr_right' fun hnot => exists_congr fun e => and_congr_left fun hsame => ?_
  -- What was not registered before is no spelling of what was.
  refine and_iff_left_of_imp fun _ => ?_
  rw [Bool.not_eq_true', Bool.eq_false_iff]
  intro hregistered
  obtain ⟨e', he', hsame'⟩ := isRegistered_iff.mp hregistered
  exact hnot ⟨e', he', hsame'.trans hsame⟩

end Coverage

/-! ### One notice -/

namespace Intake

open Coverage

/-- The creation of a directory that is to be entered is queued, and behind it that of all that its
tour shows, and the whole tour is registered. -/
theorem handle_created (plan : Plan) (fs : FileSystem) (i : Intake) (now : Nat) (s : Signal)
    {d : Path} {tour : List Path} (hlinks : plan.scope.followLinks = false)
    (hpolicy : plan.policy = Backend.acceptAll) (hshown : plan.scope.ignore.ignores d = false)
    (henters : plan.scope.enters fs d = true) (htour : Tours fs plan.scope [d] tour)
    (hs : s.changes fs = [.created d]) :
    (i.handle plan fs now (.signal s)).1.burst.pending = i.burst.pending ++
        .created d :: (tour.flatMap (shown fs plan.scope)).map .created ∧
      ∀ x, (i.handle plan fs now (.signal s)).1.coverage.isRegistered x = true ↔
        i.coverage.isRegistered x = true ∨ ∃ e ∈ tour, e.Same x := by
  have habsorb : absorb plan fs (i.heed plan now s).coverage (.created d) = _ :=
    absorb_created hshown
  rw [if_pos henters, hpolicy] at habsorb
  obtain ⟨hfound, hregistered⟩ := htour.registerCreated_acceptAll hlinks
    ((i.heed plan now s).coverage.record .eventObserved)
  constructor
  · rw [pending_handle, handle, hs]
    show i.burst.pending ++ (absorbAll plan fs (i.heed plan now s).coverage [.created d]).2 = _
    rw [absorbAll, habsorb, hfound]
    simp [absorbAll]
  · intro x
    have hbefore : ((i.heed plan now s).coverage.record .eventObserved).isRegistered x =
        i.coverage.isRegistered x :=
      congrArg (fun ds => ds.any fun e => decide (e.Same x)) (directories_heed plan now i s)
    rw [← hbefore, ← hregistered, handle, hs]
    show (absorbAll plan fs (i.heed plan now s).coverage [.created d]).1.isRegistered x = true ↔ _
    rw [absorbAll, habsorb]
    rfl

/-- **A directory that appears is reported completely and in order.** Links are kept and the watcher
refuses nothing. When the creation of a directory is handled that is no link and is not ignored,
then it is queued and behind it the creation of each entry that is visible in it and listed. None of
these entries lies within a later one, so a directory stands before all that is in it, and nothing
stands there twice. Besides what was registered before, the directory is registered then, and so are
those directories among these entries whose paths fit and which lie in a directory that can be
searched. -/
theorem appears (plan : Plan) (fs : FileSystem) (i : Intake) (now : Nat) (s : Signal) (d : Path)
    (r : Place) (access : Access) (hlinks : plan.scope.followLinks = false)
    (hpolicy : plan.policy = Backend.acceptAll) (hshown : plan.scope.ignore.ignores d = false)
    (hdir : fs.locate .kept d = .ok (.entry r (.directory access)))
    (hs : s.changes fs = [.created d]) :
    let after := (i.handle plan fs now (.signal s)).1
    ∃ found : List Path,
      after.burst.pending = i.burst.pending ++ .created d :: found.map .created ∧
      (∀ x, x ∈ found ↔
        ∃ p, Visible plan.scope fs d r p ∧ IsListed fs d r p ∧ d.under p = x) ∧
      (found.Pairwise fun x y => ¬x.Within y) ∧
      ∀ x, after.coverage.isRegistered x = true ↔
        i.coverage.isRegistered x = true ∨ d.Same x ∨
          ∃ p, d.under p ∈ found ∧ fs.HasDirectory (p ++ r) ∧
            fs.isSearchable (p.tail ++ r) = true ∧ (d.under p).Fits ∧ (d.under p).Same x := by
  have hlocate := FileSystem.locate_followed hdir
  have hplace : fs.place d = .ok r := by rw [FileSystem.place, hlocate]
  have hthere : fs.HasDirectory r :=
    FileSystem.hasDirectory_iff.mpr ⟨access, FileSystem.node?_of_locate hlocate⟩
  have henters : plan.scope.enters fs d = true := by
    rw [Scope.enters, hlinks, FileSystem.isDirectoryAt, if_neg (by decide), hdir]
    rfl
  obtain ⟨tour, htour⟩ := exists_tour hlinks fs d
  obtain ⟨hpending, hregistered⟩ := handle_created plan fs i now s hlinks hpolicy hshown henters
    htour hs
  refine ⟨tour.flatMap (shown fs plan.scope), hpending, fun x => ?_, ?_, fun x => ?_⟩
  · exact htour.mem_flatMap_shown hplace hthere hlinks
  · exact pairwise_flatMap_shown (htour.pairwise (List.pairwise_singleton _ _))
  · rw [hregistered]
    refine or_congr_right ?_
    simp only [htour.mem_iff_shown hplace hthere hlinks, or_and_right, exists_or, exists_eq_left]
    refine or_congr_right ?_
    constructor
    · rintro ⟨e, ⟨p, hp, hp', hsearch, hfits, rfl⟩, hsame⟩
      exact ⟨p, hp, hp', hsearch, hfits, hsame⟩
    · rintro ⟨p, hp, hp', hsearch, hfits, hsame⟩
      exact ⟨_, ⟨p, hp, hp', hsearch, hfits, rfl⟩, hsame⟩

/-- With `/w/d/b` registered before, the creation of `/w/d` is reported with all that is in it. -/
theorem appears_twins :
    let i : Intake := { coverage := { directories := [twinPath [[98]]] }, burst := .empty 100 }
    let s : Signal := { kind := .create .folder, paths := [twinPath []] }
    let found := [twinPath [[102]], twinPath [[97]], twinPath [[98]],
      twinPath [[121], [98]], twinPath [[120], [97]]]
    (i.handle { window := 100 } twinTree 5 (.signal s)).1.burst.pending =
        .created (twinPath []) :: found.map .created ∧
      ∀ x, x ∈ found ↔ ∃ p, Visible {} twinTree (twinPath []) [[100], [119]] p ∧
        IsListed twinTree (twinPath []) [[100], [119]] p ∧ (twinPath []).under p = x := by
  intro i s found
  obtain ⟨found', hpending, hfound, -, -⟩ := appears { window := 100 } twinTree i 5 s
    (twinPath []) [[100], [119]] {} rfl rfl rfl (by decide +kernel) rfl
  have hall : (i.handle { window := 100 } twinTree 5 (.signal s)).1.burst.pending =
      .created (twinPath []) :: found.map .created := by decide +kernel
  have hsame : found'.map Change.created = found.map Change.created :=
    List.tail_eq_of_cons_eq (hpending.symm.trans hall)
  obtain rfl : found' = found :=
    List.map_injective_iff.mpr (fun _ _ heq => congrArg Change.path heq) hsame
  exact ⟨hall, hfound⟩

/-- The tree with `/w/d`, in which there is one directory, with the longest name. -/
def deepTree : FileSystem := grownTree.insert [[100], [119]] longName (.directory {})

/-- The directory `/w/d`, spelled with many slashes. -/
def paddedPath : Path := ⟨[slash, 119] ++ List.replicate 3888 slash ++ [100]⟩

theorem locate_paddedPath :
    deepTree.locate .kept paddedPath = .ok (.entry [[100], [119]] (.directory {})) := by
  decide +kernel

/-- A walk from there turns to no other directory, since the path of the one that is shown is too
long. -/
theorem tours_paddedPath :
    shown deepTree {} paddedPath = [paddedPath.under [longName]] ∧
      Tours deepTree {} [paddedPath] [paddedPath] := by
  have hnames : deepTree.names [[100], [119]] = [longName] := by decide +kernel
  have hlist := FileSystem.list_eq_ok_iff.mpr
    ⟨⟨_, FileSystem.locate_followed locate_paddedPath, rfl⟩, hnames⟩
  have hshown : shown deepTree {} paddedPath = [paddedPath.under [longName]] := by
    rw [shown_of_list hlist]
    simp [Scope.kept]
  have hbranches : branches deepTree {} paddedPath = [] := by
    rw [branches, hshown, List.filter_cons_of_neg (by decide +kernel)]
    rfl
  refine ⟨hshown, .turn ?_⟩
  rw [hbranches]
  exact .done

/-- What the notice that `d` was created leaves, where nothing was registered and nothing waited. -/
def appeared (fs : FileSystem) (d : Path) : Intake :=
  let i : Intake := { coverage := {}, burst := .empty 100 }
  (i.handle { window := 100 } fs 5 (.signal { kind := .create .folder, paths := [d] })).1

/-- So the longest name is reported, but the directory that has it is not registered. -/
theorem appeared_paddedPath :
    (appeared deepTree paddedPath).burst.pending =
        [.created paddedPath, .created (paddedPath.under [longName])] ∧
      (appeared deepTree paddedPath).coverage.isRegistered (paddedPath.under [longName]) =
        false := by
  obtain ⟨hshown, htour⟩ := tours_paddedPath
  have henters : Scope.enters {} deepTree paddedPath = true := by
    rw [Scope.enters, FileSystem.isDirectoryAt, if_neg (by decide), locate_paddedPath]
    rfl
  obtain ⟨hpending, hregistered⟩ := handle_created { window := 100 } deepTree
    { coverage := {}, burst := .empty 100 } 5 { kind := .create .folder, paths := [paddedPath] }
    rfl rfl rfl henters htour rfl
  refine ⟨?_, ?_⟩
  · rw [appeared, hpending, List.flatMap_singleton, hshown]
    rfl
  · rw [appeared, Bool.eq_false_iff, ne_eq, hregistered]
    have hname : isProperName longName = true := by decide +kernel
    rintro (hbefore | ⟨e, he, hsame⟩)
    · cases hbefore
    · rw [List.mem_singleton.mp he] at hsame
      exact paddedPath.not_within_child hname hsame.within

/-- In `/w/d`, which can be read but not searched, there is the directory `a`. -/
def unsearchedTree : FileSystem :=
  let d : Access := { searchable := false }
  (sampleTree.insert [[119]] [100] (.directory d)).insert [[100], [119]] [97] (.directory {})

/-- A directory in the one which has appeared is reported, but it is not registered if its path is
too long, and neither is it if what is in the one around cannot be looked up. -/
theorem appears_in_part :
    (deepTree.locate .kept paddedPath = .ok (.entry [[100], [119]] (.directory {})) ∧
      (appeared deepTree paddedPath).burst.pending =
        [.created paddedPath, .created (paddedPath.under [longName])] ∧
      deepTree.node? [longName, [100], [119]] = some (.directory {}) ∧
      (appeared deepTree paddedPath).coverage.isRegistered (paddedPath.under [longName]) =
        false) ∧
    (∃ access, unsearchedTree.locate .kept (twinPath []) =
      .ok (.entry [[100], [119]] (.directory access))) ∧
      (appeared unsearchedTree (twinPath [])).burst.pending =
        [.created (twinPath []), .created (twinPath [[97]])] ∧
      unsearchedTree.node? [[97], [100], [119]] = some (.directory {}) ∧
      (appeared unsearchedTree (twinPath [])).coverage.isRegistered (twinPath [[97]]) = false := by
  obtain ⟨hpending, hregistered⟩ := appeared_paddedPath
  refine ⟨⟨locate_paddedPath, hpending, ?_, hregistered⟩, ⟨{ searchable := false }, ?_⟩, ?_, ?_, ?_⟩
  all_goals decide +kernel

end Intake

end WorkspaceWatch
