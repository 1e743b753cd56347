import WorkspaceWatch.Proofs.Coverage.Following

/-!
# The tour of a walk

Where links are kept, a walk takes no directory for another one, so the order in which it turns to
directories does not depend on what it has visited, registered or been refused. This order is the
**tour** of a tree (`Tours`): a directory, and then the directories that it leads to, the last one
first, each followed by all that is below it.

A tour holds exactly the directories that can be reached (`Tours.mem_iff`, `reached_iff`), and none
of them lies within a later one (`Tours.pairwise`). A lenient walk goes along the tour, until the
watcher refuses a directory (`Walk.along`, `Tours.walk_eq`).
-/

namespace WorkspaceWatch

namespace Coverage

variable {fs : FileSystem} {scope : Scope} {policy : Backend.Policy} {w : Walk}
  {root dir d x : Path} {r p : Place} {waiting tour : List Path}

/-! ### What a directory shows -/

/-- The entries that a directory shows, in the order in which it lists them. -/
def shown (fs : FileSystem) (scope : Scope) (dir : Path) : List Path :=
  match fs.list dir with
  | .ok (_, names) => scope.kept dir names
  | .error _ => []

/-- The directories that a directory leads to, the last one first. -/
def branches (fs : FileSystem) (scope : Scope) (dir : Path) : List Path :=
  ((shown fs scope dir).filter (scope.enters fs)).reverse

theorem shown_of_list {v : Place} {names : List Name} (h : fs.list dir = .ok (v, names)) :
    shown fs scope dir = scope.kept dir names := by
  rw [shown, h]

theorem shown_of_error {e : IoFault} (h : fs.list dir = .error e) : shown fs scope dir = [] := by
  rw [shown, h]

theorem mem_shown_iff : x ∈ shown fs scope dir ↔ Shows fs scope dir x := by
  rw [Shows]
  cases h : fs.list dir with
  | error e => simp [shown_of_error h]
  | ok found =>
    obtain ⟨v, names⟩ := found
    simp [shown_of_list h]

theorem mem_branches_iff : x ∈ branches fs scope dir ↔ Leads fs scope dir x := by
  rw [branches, List.mem_reverse, List.mem_filter, mem_shown_iff, Leads]

theorem Shows.within (h : Shows fs scope dir x) : x.Within dir ∧ ¬dir.Within x := by
  obtain ⟨v, n, -, -, hn, rfl, -⟩ := h.exists_child
  exact ⟨dir.within_child hn, dir.not_within_child hn⟩

/-- What a directory shows lies side by side. -/
theorem pairwise_shown (fs : FileSystem) (scope : Scope) (dir : Path) :
    (shown fs scope dir).Pairwise Path.Apart := by
  cases h : fs.list dir with
  | error e =>
    rw [shown_of_error h]
    exact List.Pairwise.nil
  | ok found =>
    obtain ⟨v, names⟩ := found
    obtain rfl := (FileSystem.list_eq_ok_iff.mp h).2
    rw [shown_of_list h]
    refine List.Pairwise.filter _ (List.pairwise_map.mpr ?_)
    refine (fs.nodup_names v).imp_of_mem fun {n m} hn hm hne => ?_
    obtain ⟨_, hn⟩ := fs.mem_names_iff.mp hn
    obtain ⟨_, hm⟩ := fs.mem_names_iff.mp hm
    exact dir.apart_child (fs.isProperName_of_node? hn) (fs.isProperName_of_node? hm) hne

/-! ### Tours -/

/-- A walk that is not stopped and takes no directory for another one turns to the directories
`tour`, if at first the directories `waiting` wait. -/
inductive Tours (fs : FileSystem) (scope : Scope) : (waiting tour : List Path) → Prop
  | done : Tours fs scope [] []
  | turn {dir : Path} {waiting tour : List Path}
      (rest : Tours fs scope (branches fs scope dir ++ waiting) tour) :
      Tours fs scope (dir :: waiting) (dir :: tour)

theorem reached_iff_leads : Reached fs scope dir x ↔
    x = dir ∨ ∃ d, Leads fs scope dir d ∧ Reached fs scope d x := by
  constructor
  · intro h
    induction h with
    | start => exact .inl rfl
    | next _ hleads ih =>
      rcases ih with rfl | ⟨d, hd, hreached⟩
      · exact .inr ⟨_, hleads, .start⟩
      · exact .inr ⟨d, hd, hreached.next hleads⟩
  · rintro (rfl | ⟨d, hd, hreached⟩)
    · exact .start
    · induction hreached with
      | start => exact Reached.start.next hd
      | next _ hleads ih => exact ih.next hleads

/-- A tour goes to everything that can be reached. -/
theorem Tours.mem_iff (h : Tours fs scope waiting tour) :
    x ∈ tour ↔ ∃ d ∈ waiting, Reached fs scope d x := by
  induction h with
  | done => simp
  | @turn dir waiting tour rest ih =>
    rw [List.mem_cons, ih, List.exists_mem_cons_iff, @reached_iff_leads fs scope dir x, or_assoc]
    refine or_congr_right ?_
    simp only [List.mem_append, mem_branches_iff, or_and_right, exists_or]

theorem pairwise_turn (h : (dir :: waiting).Pairwise Path.Apart) :
    (branches fs scope dir ++ waiting).Pairwise Path.Apart := by
  obtain ⟨hdir, hwaiting⟩ := List.pairwise_cons.mp h
  refine List.pairwise_append.mpr ⟨?_, hwaiting, fun d hd e he => ?_⟩
  · refine List.pairwise_reverse.mpr (((pairwise_shown fs scope dir).filter _).imp ?_)
    exact fun happart => happart.symm
  · exact (hdir e he).of_within (mem_branches_iff.mp hd).1.within.1

/-- In a tour no directory lies within one that comes later. In particular it has no repetitions. -/
theorem Tours.pairwise (h : Tours fs scope waiting tour) (hwaiting : waiting.Pairwise Path.Apart) :
    tour.Pairwise fun d e => ¬d.Within e := by
  induction h with
  | done => exact List.Pairwise.nil
  | @turn dir waiting tour rest ih =>
    refine List.pairwise_cons.mpr ⟨fun e he hwithin => ?_, ih (pairwise_turn hwaiting)⟩
    obtain ⟨d, hd, hreached⟩ := rest.mem_iff.mp he
    have hdir : dir.Within d := hwithin.trans hreached.within
    rcases List.mem_append.mp hd with hd | hd
    · exact (mem_branches_iff.mp hd).1.within.2 hdir
    · exact ((List.pairwise_cons.mp hwaiting).1 d hd).1 hdir

/-! ### Walks along a tour -/

/-- What a walk comes to that turns to the directories of a tour, and is stopped by nothing but a
refusal. -/
def Walk.along (fs : FileSystem) (scope : Scope) (policy : Backend.Policy) :
    Walk → List Path → Walk × Option Refusal
  | w, [] => (w, none)
  | w, dir :: tour =>
    match (w.noted fs scope dir).register policy dir with
    | (w, some refusal) => (w, some refusal)
    | (w, none) => along fs scope policy { w with found := w.found ++ shown fs scope dir } tour

section Keeping

variable (hlinks : scope.followLinks = false)
include hlinks

theorem Walk.Runs.exists_tour {after : Walk × Option Refusal}
    (hrun : Runs fs scope Backend.acceptAll false waiting w after) :
    ∃ tour, Tours fs scope waiting tour := by
  induction hrun with
  | done => exact ⟨[], .done⟩
  | @passed dir waiting w w' after turns _ ih =>
    obtain ⟨tour, htour⟩ := ih
    cases turns with
    | known seen =>
      rw [w.hasVisited_of_keeping hlinks] at seen
      cases seen
    | unreadable _ _ list =>
      refine ⟨dir :: tour, .turn ?_⟩
      rwa [branches, shown_of_error list]
  | @stopped dir waiting w w' refusal turns =>
    cases turns with
    | refused _ register =>
      have haccepted := Walk.register_acceptAll (w.noted fs scope dir) dir
      rw [register] at haccepted
      cases haccepted
    | ended _ _ _ hstrict => cases hstrict
  | @entered dir waiting children w w' after turns _ ih =>
    obtain ⟨tour, htour⟩ := ih
    cases turns with
    | entered _ _ list =>
      refine ⟨dir :: tour, .turn ?_⟩
      rwa [branches, shown_of_list list]

/-- A lenient walk goes along the tour. -/
theorem Tours.runs (htour : Tours fs scope waiting tour) (w : Walk) :
    Walk.Runs fs scope policy false waiting w (w.along fs scope policy tour) := by
  induction htour generalizing w with
  | done => exact .done
  | @turn dir waiting tour rest ih =>
    have hnew : w.hasVisited fs scope dir = false := w.hasVisited_of_keeping hlinks dir
    rw [Walk.along]
    rcases hregister : (w.noted fs scope dir).register policy dir with ⟨w', _ | refusal⟩
    · have hnext := ih { w' with found := w'.found ++ shown fs scope dir }
      rw [branches] at hnext
      dsimp only
      cases hlist : fs.list dir with
      | error e =>
        rw [shown_of_error hlist, List.append_nil] at hnext ⊢
        exact .passed (.unreadable hnew hregister hlist rfl) hnext
      | ok found =>
        rw [shown_of_list hlist] at hnext ⊢
        exact .entered (.entered hnew hregister hlist) hnext
    · exact .stopped (.refused hnew hregister)

theorem exists_tour (fs : FileSystem) (root : Path) : ∃ tour, Tours fs scope [root] tour :=
  (runs_walk fs scope Backend.acceptAll false {} root).exists_tour hlinks

theorem Tours.walk_eq (htour : Tours fs scope [root] tour) (policy : Backend.Policy)
    (c : Coverage) :
    walk fs scope policy false c root = Walk.along fs scope policy { coverage := c } tour :=
  (runs_walk fs scope policy false c root).unique (htour.runs hlinks { coverage := c })

end Keeping

/-! ### What can be reached -/

/-- The directories above a place, up to the root, can be read and searched, and their paths fit. So
a directory at this place can be come to. -/
def InReach (fs : FileSystem) (root : Path) (r : Place) : Place → Prop
  | [] => True
  | _ :: p => InReach fs root r p ∧ fs.isReadable (p ++ r) = true ∧
    fs.isSearchable (p ++ r) = true ∧ (root.under p).Fits

/-- An entry at the place is listed by a directory that can be come to. The directory has to be
readable for this, but need not be searchable. -/
def IsListed (fs : FileSystem) (root : Path) (r : Place) : Place → Prop
  | [] => False
  | _ :: p => InReach fs root r p ∧ fs.isReadable (p ++ r) = true ∧ (root.under p).Fits

theorem InReach.accessible (h : InReach fs root r p) : Accessible fs r p := by
  induction p with
  | nil => trivial
  | cons name p ih => exact ⟨ih h.1, h.2.2.1⟩

section Rooted

variable (hplace : fs.place root = .ok r) (hdir : fs.HasDirectory r)
include hplace hdir

/-- A directory that is to be covered and can be come to shows what is visible in it, if it can be
read. -/
theorem shows_iff_of_inReach (hp : Covers scope fs root r p) (hreach : InReach fs root r p)
    (hfits : (root.under p).Fits) :
    Shows fs scope (root.under p) x ↔ ∃ n, Visible scope fs root r (n :: p) ∧
      fs.isReadable (p ++ r) = true ∧ root.under (n :: p) = x := by
  obtain ⟨access, hlocate⟩ := locate_under hplace hdir hp hreach.accessible hfits
  have hread : fs.isReadable (p ++ r) = access.readable := by
    rw [FileSystem.isReadable, FileSystem.node?_of_locate hlocate]
    rfl
  rw [hread]
  constructor
  · intro hshows
    obtain ⟨v, -, hok, -⟩ := hshows.exists_child
    have hlist := list_under hplace hdir hp hreach.accessible hfits hok
    obtain ⟨n, hn, rfl⟩ := (shows_under_iff hlist hp).mp hshows
    obtain ⟨⟨access', hlocate', hread'⟩, -⟩ := FileSystem.list_eq_ok_iff.mp hlist
    cases hlocate.symm.trans hlocate'
    exact ⟨n, hn, hread', rfl⟩
  · rintro ⟨n, hn, hread, rfl⟩
    have hlist := FileSystem.list_eq_ok_iff.mpr ⟨⟨access, hlocate, hread⟩, rfl⟩
    exact (shows_under_iff hlist hp).mpr ⟨n, hn, rfl⟩

/-- Where links are kept, a walk can come to the directories that are to be covered, are in reach
and have paths that fit. -/
theorem reached_iff (hlinks : scope.followLinks = false) : Reached fs scope root d ↔
    ∃ p, Covers scope fs root r p ∧ InReach fs root r p ∧ (root.under p).Fits ∧
      root.under p = d := by
  constructor
  · intro h
    induction h with
    | start =>
      obtain ⟨_, hlocate⟩ := FileSystem.locate_of_place hplace hdir
      exact ⟨[], trivial, trivial, Path.fits_of_fault? (FileSystem.fault?_of_locate hlocate), rfl⟩
    | next _ hleads ih =>
      obtain ⟨p, hp, hreach, hfits, rfl⟩ := ih
      obtain ⟨-, -, hread, -⟩ :=
        (shows_iff_of_inReach hplace hdir hp hreach hfits).mp hleads.1
      obtain ⟨v, names, hok, -⟩ := hleads.1
      have hlist := list_under hplace hdir hp hreach.accessible hfits hok
      obtain ⟨n, hn, hsearch, hfault, rfl⟩ := (leads_under_iff hlist hp hlinks).mp hleads
      exact ⟨n :: p, hn, ⟨hreach, hread, hsearch, hfits⟩, Path.fits_of_fault? hfault, rfl⟩
  · rintro ⟨p, hp, hreach, hfits, rfl⟩
    induction p with
    | nil => exact .start
    | cons n p ih =>
      obtain ⟨_, hlocate⟩ := locate_under hplace hdir hp hreach.accessible hfits
      obtain ⟨hreach, hread, hsearch, hfits'⟩ := hreach
      have hshows := (shows_iff_of_inReach hplace hdir hp.1 hreach hfits').mpr
        ⟨n, hp.visible (List.cons_ne_nil n p), hread, rfl⟩
      obtain ⟨v, names, hok, -⟩ := hshows
      have hlist := list_under hplace hdir hp.1 hreach.accessible hfits' hok
      refine (ih hp.1 hreach hfits').next ((leads_under_iff hlist hp.1 hlinks).mpr ?_)
      exact ⟨n, hp, hsearch, FileSystem.fault?_of_locate hlocate, rfl⟩

/-- What the directories of a tour show is what is visible and listed. -/
theorem Tours.mem_flatMap_shown (hlinks : scope.followLinks = false)
    (htour : Tours fs scope [root] tour) : x ∈ tour.flatMap (shown fs scope) ↔
      ∃ p, Visible scope fs root r p ∧ IsListed fs root r p ∧ root.under p = x := by
  simp only [List.mem_flatMap, htour.mem_iff, List.mem_singleton, exists_eq_left, mem_shown_iff]
  constructor
  · rintro ⟨d, hd, hshows⟩
    obtain ⟨p, hp, hreach, hfits, rfl⟩ := (reached_iff hplace hdir hlinks).mp hd
    obtain ⟨n, hn, hread, rfl⟩ := (shows_iff_of_inReach hplace hdir hp hreach hfits).mp hshows
    exact ⟨n :: p, hn, ⟨hreach, hread, hfits⟩, rfl⟩
  · rintro ⟨_ | ⟨n, p⟩, hp, hlisted, rfl⟩
    · exact hp.elim
    · obtain ⟨hreach, hread, hfits⟩ := hlisted
      exact ⟨root.under p, (reached_iff hplace hdir hlinks).mpr ⟨p, hp.1, hreach, hfits, rfl⟩,
        (shows_iff_of_inReach hplace hdir hp.1 hreach hfits).mpr ⟨n, hp, hread, rfl⟩⟩

end Rooted

end Coverage

end WorkspaceWatch
