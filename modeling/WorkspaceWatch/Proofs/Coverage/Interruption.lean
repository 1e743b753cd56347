import Mathlib.Data.List.TakeWhile
import WorkspaceWatch.Proofs.Coverage.Tour

/-!
# Refusals in a tree that has appeared

What has appeared should be registered as well as possible: a directory that the watcher refuses
should cost no more than itself. But the walk through a tree ends with the first refusal. So of the
tour of the tree there is a first stretch, up to the first directory that is neither registered nor
accepted, and it decides everything: what is in these directories is reported, these directories are
registered, and nothing else is (`Coverage.registerCreated_stops`).

That stretch is the whole tour exactly if no directory in it is refused. Otherwise what comes later
is lost, also where it has nothing to do with the directory that was refused
(`Coverage.registerCreated_loses`).
-/

namespace WorkspaceWatch

namespace Coverage

variable {fs : FileSystem} {scope : Scope} {policy : Backend.Policy} {c : Coverage} {w : Walk}
  {dir d : Path} {r : Place} {tour : List Path} {refuses : Path → Option String}

/-! ### Registering one directory -/

theorem Walk.register_of_registered (h : w.coverage.isRegistered dir = true) :
    w.register policy dir = (w, none) := by
  rw [Walk.register, if_pos h]

theorem Walk.register_of_accepted (hfree : w.coverage.isRegistered dir = false)
    (hpolicy : policy w.coverage.backend dir = none) :
    w.register policy dir =
      ({ w with coverage := w.coverage.enrolled dir, added := w.added ++ [dir] }, none) := by
  rw [Walk.register, if_neg (by simp [hfree]), Coverage.watch, hpolicy]
  rfl

theorem Walk.register_of_refused {reason : String} (hfree : w.coverage.isRegistered dir = false)
    (hpolicy : policy w.coverage.backend dir = some reason) :
    w.register policy dir =
      ({ w with coverage := w.coverage.rebuffed dir }, some ⟨dir, reason⟩) := by
  rw [Walk.register, if_neg (by simp [hfree]), Coverage.watch, hpolicy]
  rfl

/-- A directory is registered after another one was enrolled if it was before, or is that one. -/
theorem isRegistered_enrolled (c : Coverage) (p d : Path) :
    (c.enrolled p).isRegistered d = (c.isRegistered d || decide (p.Same d)) := by
  simp [isRegistered, enrolled]

/-! ### The first stretch of a tour -/

/-- The directory is registered, or the watcher does not refuse it. -/
def admits (refuses : Path → Option String) (c : Coverage) (d : Path) : Bool :=
  c.isRegistered d || (refuses d).isNone

/-- A watcher that refuses nothing admits a whole tour. -/
theorem takeWhile_admits_none (c : Coverage) (tour : List Path) :
    tour.takeWhile (admits (fun _ => none) c) = tour :=
  List.takeWhile_eq_self_iff.mpr fun d _ => by simp [admits]

/-- What a walk comes to that goes from `w` along a tour, as far as the directories are admitted
that are registered in `c` or not refused. -/
structure Walk.Stops (fs : FileSystem) (scope : Scope) (refuses : Path → Option String)
    (c : Coverage) (w : Walk) (tour : List Path) (after : Walk × Option Refusal) : Prop where
  found : after.1.found = w.found ++ (tour.takeWhile (admits refuses c)).flatMap (shown fs scope)
  directories : after.1.coverage.directories = w.coverage.directories ++
    (tour.takeWhile (admits refuses c)).filter fun d => !c.isRegistered d
  added : after.1.added = w.added ++
    (tour.takeWhile (admits refuses c)).filter fun d => !c.isRegistered d
  tally : after.1.coverage.tally = w.coverage.tally
  refusal : after.2 = none ↔ tour.takeWhile (admits refuses c) = tour

namespace Walk.Stops

variable {w₁ : Walk} {after : Walk × Option Refusal}

/-- A directory that is admitted is passed, and is registered if it is not yet. -/
theorem cons_of_admits (h : w₁.Stops fs scope refuses c tour after)
    (hadmits : admits refuses c dir = true) (hfound : w₁.found = w.found ++ shown fs scope dir)
    (hdirectories : w₁.coverage.directories =
      w.coverage.directories ++ [dir].filter fun d => !c.isRegistered d)
    (hadded : w₁.added = w.added ++ [dir].filter fun d => !c.isRegistered d)
    (htally : w₁.coverage.tally = w.coverage.tally) :
    w.Stops fs scope refuses c (dir :: tour) after := by
  have hcons : (dir :: tour).takeWhile (admits refuses c) =
      [dir] ++ tour.takeWhile (admits refuses c) := List.takeWhile_cons_of_pos hadmits
  refine ⟨?_, ?_, ?_, h.tally.trans htally, ?_⟩ <;> rw [hcons]
  · rw [h.found, hfound, List.flatMap_append, List.flatMap_singleton, List.append_assoc]
  · rw [h.directories, hdirectories, List.filter_append, List.append_assoc]
  · rw [h.added, hadded, List.filter_append, List.append_assoc]
  · rw [h.refusal, List.singleton_append, List.cons_inj_right]

/-- At a directory that is not admitted the walk stops as it is. -/
theorem of_not_admits {refusal : Refusal} (hadmits : ¬admits refuses c dir = true)
    (hfound : w₁.found = w.found) (hdirectories : w₁.coverage.directories = w.coverage.directories)
    (hadded : w₁.added = w.added) (htally : w₁.coverage.tally = w.coverage.tally) :
    w.Stops fs scope refuses c (dir :: tour) (w₁, some refusal) := by
  have hnil : (dir :: tour).takeWhile (admits refuses c) = [] := List.takeWhile_cons_of_neg hadmits
  refine ⟨?_, ?_, ?_, htally, ?_⟩ <;> rw [hnil]
  · simpa using hfound
  · simpa using hdirectories
  · simpa using hadded
  · simp

end Walk.Stops

theorem Walk.stops_along (fs : FileSystem) (scope : Scope) (refuses : Path → Option String)
    (c : Coverage) (w : Walk) (tour : List Path)
    (hknown : ∀ d ∈ tour, w.coverage.isRegistered d = c.isRegistered d)
    (hdistinct : tour.Pairwise fun d e => ¬d.Same e) :
    w.Stops fs scope refuses c tour (w.along fs scope (fun _ => refuses) tour) := by
  induction tour generalizing w with
  | nil => exact ⟨by simp [along], by simp [along], by simp [along], rfl, by simp [along]⟩
  | cons dir tour ih =>
    obtain ⟨hdir, hknown⟩ := List.forall_mem_cons.mp hknown
    obtain ⟨hapart, hdistinct⟩ := List.pairwise_cons.mp hdistinct
    rw [along]
    cases hregistered : c.isRegistered dir with
    | true =>
      have hadmits : admits refuses c dir = true := by simp [admits, hregistered]
      rw [register_of_registered (w := w.noted fs scope dir) (hdir.trans hregistered)]
      exact (ih { w.noted fs scope dir with found := w.found ++ shown fs scope dir } hknown
        hdistinct).cons_of_admits hadmits rfl (by simp [hregistered]) (by simp [hregistered]) rfl
    | false =>
      have hfree : (w.noted fs scope dir).coverage.isRegistered dir = false :=
        hdir.trans hregistered
      cases hrefuses : refuses dir with
      | none =>
        have hadmits : admits refuses c dir = true := by simp [admits, hrefuses]
        -- Nothing later on the tour is registered by that.
        have hlater : ∀ d ∈ tour, (w.coverage.enrolled dir).isRegistered d = c.isRegistered d :=
          fun d hd => by rw [isRegistered_enrolled, hknown d hd]; simp [hapart d hd]
        rw [register_of_accepted hfree hrefuses]
        exact (ih
          { w.noted fs scope dir with
            coverage := w.coverage.enrolled dir
            added := w.added ++ [dir]
            found := w.found ++ shown fs scope dir } hlater hdistinct).cons_of_admits hadmits rfl
          (by simp [hregistered, enrolled]) (by simp [hregistered]) rfl
      | some reason =>
        have hadmits : ¬admits refuses c dir = true := by simp [admits, hregistered, hrefuses]
        rw [register_of_refused hfree hrefuses]
        exact .of_not_admits hadmits rfl rfl rfl rfl

/-! ### What has appeared -/

/-- What is registered after something has appeared is what the walk through it leaves. -/
theorem directories_registerCreated (fs : FileSystem) (scope : Scope) (policy : Backend.Policy)
    (c : Coverage) (dir : Path) : (c.registerCreated fs scope policy dir).1.directories =
      (walk fs scope policy false c dir).1.coverage.directories := by
  rw [registerCreated]
  exact (Walk.account_frame _ _).1

/-- One failure is counted if the walk was stopped. -/
theorem registrationFailures_registerCreated (fs : FileSystem) (scope : Scope)
    (policy : Backend.Policy) (c : Coverage) (dir : Path) :
    (c.registerCreated fs scope policy dir).1.tally.registrationFailures =
      (walk fs scope policy false c dir).1.coverage.tally.registrationFailures +
        if (walk fs scope policy false c dir).2 = none then 0 else 1 := by
  rw [registerCreated]
  exact Walk.registrationFailures_account _ _

/-- The walk through what has appeared stops where the first stretch of its tour ends. -/
theorem Tours.stops_walk (hlinks : scope.followLinks = false) (htour : Tours fs scope [dir] tour)
    (refuses : Path → Option String) (c : Coverage) :
    Walk.Stops fs scope refuses c { coverage := c } tour
      (walk fs scope (fun _ => refuses) false c dir) := by
  have hordered := htour.pairwise (List.pairwise_singleton _ _)
  rw [htour.walk_eq hlinks]
  exact Walk.stops_along fs scope refuses c { coverage := c } tour (fun _ _ => rfl)
    (hordered.imp fun hnot hsame => hnot hsame.within)

theorem Tours.mem_iff_covers (hplace : fs.place dir = .ok r) (hdir : fs.HasDirectory r)
    (hlinks : scope.followLinks = false) (htour : Tours fs scope [dir] tour) : d ∈ tour ↔
    ∃ p, Covers scope fs dir r p ∧ InReach fs dir r p ∧ (dir.under p).Fits ∧ dir.under p = d := by
  rw [htour.mem_iff]
  simpa using reached_iff hplace hdir hlinks

/-- **Registering what has appeared ends with the first refusal.** Links are kept. The directories
in a new tree that are to be covered, are in reach and have paths that fit make up a tour, in which
a directory comes before all that is below it. Whatever directories the watcher refuses, and
whatever is registered before, what is reported is exactly what is in the directories of this tour
up to the first one that is refused, and exactly these are registered. If one is refused, then one
failure is counted. -/
theorem registerCreated_stops (fs : FileSystem) (scope : Scope) (dir : Path) (r : Place)
    (hlinks : scope.followLinks = false) (hplace : fs.place dir = .ok r)
    (hdir : fs.HasDirectory r) : ∃ tour : List Path, Tours fs scope [dir] tour ∧
      (∀ d, d ∈ tour ↔ ∃ p, Covers scope fs dir r p ∧ InReach fs dir r p ∧ (dir.under p).Fits ∧
        dir.under p = d) ∧
      (∀ x, x ∈ tour.flatMap (shown fs scope) ↔
        ∃ p, Visible scope fs dir r p ∧ IsListed fs dir r p ∧ dir.under p = x) ∧
      (tour.Pairwise fun d e => ¬d.Within e) ∧
      ∀ (refuses : Path → Option String) (c : Coverage),
        let before := tour.takeWhile (admits refuses c)
        let after := c.registerCreated fs scope (fun _ => refuses) dir
        after.2 = before.flatMap (shown fs scope) ∧
          after.1.directories = c.directories ++ before.filter (fun d => !c.isRegistered d) ∧
          after.1.tally.registrationFailures =
            c.tally.registrationFailures + if before = tour then 0 else 1 := by
  obtain ⟨tour, htour⟩ := exists_tour hlinks fs dir
  refine ⟨tour, htour, fun d => htour.mem_iff_covers hplace hdir hlinks,
    fun x => htour.mem_flatMap_shown hplace hdir hlinks,
    htour.pairwise (List.pairwise_singleton _ _), fun refuses c => ?_⟩
  have hstops := htour.stops_walk hlinks refuses c
  refine ⟨hstops.found, ?_, ?_⟩
  · rw [directories_registerCreated, hstops.directories]
  · rw [registrationFailures_registerCreated, hstops.tally]
    simp only [hstops.refusal]

/-- In `/w/d` there are a file `f` and the directories `a` and `b`, with a file `x` in `a` and a
file `y` in `b`. -/
def twinTree : FileSystem :=
  let f := grownTree.insert [[100], [119]] [102] (.file "")
  let a := (f.insert [[100], [119]] [97] (.directory {})).insert [[97], [100], [119]] [120]
    (.file "")
  (a.insert [[100], [119]] [98] (.directory {})).insert [[98], [100], [119]] [121] (.file "")

/-- The path of what is at the place `p` below `/w/d`. -/
def twinPath (p : Place) : Path := (sampleRoot.under [[100]]).under p

/-- The tour of `/w/d` goes to `/w/d/b` and then to `/w/d/a`, and any refusal cuts it off. -/
theorem registerCreated_stops_twins :
    Tours twinTree {} [twinPath []] [twinPath [], twinPath [[98]], twinPath [[97]]] ∧
      ∀ refuses c, (c.registerCreated twinTree {} (fun _ => refuses) (twinPath [])).2 =
        ([twinPath [], twinPath [[98]], twinPath [[97]]].takeWhile
          (admits refuses c)).flatMap (shown twinTree {}) := by
  obtain ⟨tour, htour, -, -, -, hstops⟩ := registerCreated_stops twinTree {} (twinPath [])
    [[100], [119]] rfl (by decide +kernel) (by decide +kernel)
  -- If nothing is registered or refused, the whole tour is registered.
  have hall : (registerCreated twinTree {} (fun _ _ => none) {} (twinPath [])).1.directories =
      tour := by
    rw [(hstops (fun _ => none) {}).2.1, takeWhile_admits_none]
    simp [isRegistered]
  obtain rfl : tour = [twinPath [], twinPath [[98]], twinPath [[97]]] :=
    hall.symm.trans (by decide +kernel)
  exact ⟨htour, fun refuses c => (hstops refuses c).1⟩

/-- A watcher that refuses the directory at the path `p`. -/
def refusing (p : Path) : Path → Option String := fun d =>
  if d = p then some "watch limit reached" else none

/-- If the watcher refuses `/w/d/b`, then `/w/d/a` is not registered and `/w/d/a/x` is not reported,
although `/w/d/a` can be read and neither it nor `/w/d` is refused. -/
theorem registerCreated_loses :
    let after := registerCreated twinTree {} (fun _ => refusing (twinPath [[98]])) {}
      (twinPath [])
    (Covers {} twinTree (twinPath []) [[100], [119]] [[97]] ∧
      IsListed twinTree (twinPath []) [[100], [119]] [[120], [97]] ∧
      refusing (twinPath [[98]]) (twinPath []) = none ∧
      refusing (twinPath [[98]]) (twinPath [[97]]) = none ∧
      after.1.isRegistered (twinPath [[97]]) = false) ∧
    Visible {} twinTree (twinPath []) [[100], [119]] [[120], [97]] ∧
      twinPath [[120], [97]] ∉ after.2 := by
  have hcovers : Covers {} twinTree (twinPath []) [[100], [119]] [[97]] :=
    ⟨trivial, by decide +kernel, rfl⟩
  refine ⟨⟨hcovers, ⟨⟨trivial, ?_, ?_, ?_⟩, ?_, ?_⟩, ?_, ?_, ?_⟩, ⟨hcovers, ?_, rfl⟩, ?_⟩
  all_goals decide +kernel

end Coverage

end WorkspaceWatch
