import WorkspaceWatch.Watch.Coverage
import WorkspaceWatch.Proofs.FileSystem.Descent

/-!
# What a walk explores

A walk is followed in two stages. `Walk.Runs` is the walk without its bound: it says what is done
about one waiting directory after the other until none waits or one is refused. The bound with which
a walk is started is always enough for that (`runs_walk`), because the path of a directory that is
entered is longer than the one before it, and no longer than the operating system takes it.

`Explored` is the invariant. It accounts for the directories that are done: they were reached from
the start, they are registered, what they show was found, and what they lead to waits or is done as
well. Once nothing waits, what is done is closed under going down.
-/

namespace WorkspaceWatch

namespace Coverage

variable {fs : FileSystem} {scope : Scope} {policy : Backend.Policy} {strict : Bool}
  {w w' : Walk} {dir : Path}

/-! ### One visit -/

/-- What can come of turning to a directory. -/
inductive Walk.Turns (fs : FileSystem) (scope : Scope) (policy : Backend.Policy) (strict : Bool)
    (w : Walk) (dir : Path) : Visit → Prop
  /-- The directory was visited before. -/
  | known (seen : w.hasVisited fs scope dir = true) :
      Turns fs scope policy strict w dir (.passed w)
  /-- The watcher refuses the directory. -/
  | refused {w' : Walk} {refusal : Refusal} (new : w.hasVisited fs scope dir = false)
      (register : (w.noted fs scope dir).register policy dir = (w', some refusal)) :
      Turns fs scope policy strict w dir (.stopped w' refusal)
  /-- The directory cannot be read, and the walk goes on. -/
  | unreadable {w' : Walk} {e : IoFault} (new : w.hasVisited fs scope dir = false)
      (register : (w.noted fs scope dir).register policy dir = (w', none))
      (list : fs.list dir = .error e) (lenient : strict = false) :
      Turns fs scope policy strict w dir (.passed w')
  /-- The directory cannot be read, which ends a strict walk. -/
  | ended {w' : Walk} {e : IoFault} (new : w.hasVisited fs scope dir = false)
      (register : (w.noted fs scope dir).register policy dir = (w', none))
      (list : fs.list dir = .error e) (exacting : strict = true) :
      Turns fs scope policy strict w dir (.stopped w' ⟨dir, e.message⟩)
  /-- The directory is entered. -/
  | entered {w' : Walk} {v : Place} {names : List Name} (new : w.hasVisited fs scope dir = false)
      (register : (w.noted fs scope dir).register policy dir = (w', none))
      (list : fs.list dir = .ok (v, names)) :
      Turns fs scope policy strict w dir
        (.entered { w' with found := w'.found ++ scope.kept dir names }
          ((scope.kept dir names).filter (scope.enters fs)))

theorem Walk.turns_visit (fs : FileSystem) (scope : Scope) (policy : Backend.Policy)
    (strict : Bool) (w : Walk) (dir : Path) :
    w.Turns fs scope policy strict dir (w.visit fs scope policy strict dir) := by
  rw [Walk.visit, Walk.approach]
  cases hvisited : w.hasVisited fs scope dir with
  | true =>
    rw [if_pos rfl]
    exact .known hvisited
  | false =>
    rw [if_neg Bool.false_ne_true]
    rcases hregister : (w.noted fs scope dir).register policy dir with ⟨w', _ | refusal⟩
    · dsimp only
      split
      · next e hlist =>
        cases strict with
        | true => exact .ended hvisited hregister hlist rfl
        | false => exact .unreadable hvisited hregister hlist rfl
      · next v names hlist => exact .entered hvisited hregister hlist
    · exact .refused hvisited hregister

/-- A walk that keeps links takes no directory for another one. -/
theorem Walk.hasVisited_of_keeping (hlinks : scope.followLinks = false) (w : Walk) (dir : Path) :
    w.hasVisited fs scope dir = false := by
  rw [Walk.hasVisited, hlinks, Bool.false_and]

@[simp] theorem Walk.noted_coverage : (w.noted fs scope dir).coverage = w.coverage := rfl

@[simp] theorem Walk.noted_added : (w.noted fs scope dir).added = w.added := rfl

/-! ### Registering in the course of a walk -/

theorem isRegistered_iff {c : Coverage} {p : Path} :
    c.isRegistered p = true ↔ ∃ d ∈ c.directories, d.Same p := by
  simp [isRegistered]

/-- A registered directory is no spelling of a path that is not registered. -/
theorem not_same_of_mem {c : Coverage} {p d : Path} (hfree : c.isRegistered p = false)
    (hd : d ∈ c.directories) : ¬d.Same p := fun hsame => by
  rw [isRegistered_iff.mpr ⟨d, hd, hsame⟩] at hfree
  cases hfree

theorem isRegistered_mono {c c' : Coverage} {p : Path} (h : c.directories ⊆ c'.directories)
    (hp : c.isRegistered p = true) : c'.isRegistered p = true := by
  obtain ⟨d, hd, hsame⟩ := isRegistered_iff.mp hp
  exact isRegistered_iff.mpr ⟨d, h hd, hsame⟩

/-- Registering concerns neither what was visited nor what was found. -/
theorem Walk.register_frame {refusal? : Option Refusal}
    (h : w.register policy dir = (w', refusal?)) :
    w'.visited = w.visited ∧ w'.found = w.found := by
  rw [Walk.register] at h
  split at h
  · cases h
    exact ⟨rfl, rfl⟩
  · split at h <;> cases h <;> exact ⟨rfl, rfl⟩

/-- A walk never forgets a directory, whether the next one is refused or not. -/
theorem Walk.subset_register {refusal? : Option Refusal}
    (h : w.register policy dir = (w', refusal?)) :
    w.coverage.directories ⊆ w'.coverage.directories := by
  rw [Walk.register, Coverage.watch] at h
  by_cases hregistered : w.coverage.isRegistered dir = true
  · rw [if_pos hregistered] at h
    cases h
    exact List.Subset.refl _
  · rw [if_neg hregistered] at h
    cases hpolicy : policy w.coverage.backend dir <;> rw [hpolicy] at h <;> cases h
    · exact List.subset_append_left _ _
    · exact List.Subset.refl _

/-- A directory that is not refused is registered afterwards, and no other is added. -/
theorem Walk.register_eq_none (h : w.register policy dir = (w', none)) :
    w'.coverage.isRegistered dir = true ∧
      ∀ d ∈ w'.coverage.directories, d ∈ w.coverage.directories ∨ d = dir := by
  rw [Walk.register, Coverage.watch] at h
  by_cases hregistered : w.coverage.isRegistered dir = true
  · rw [if_pos hregistered] at h
    cases h
    exact ⟨hregistered, fun d hd => .inl hd⟩
  · rw [if_neg hregistered] at h
    cases hpolicy : policy w.coverage.backend dir with
    | some reason => simp [hpolicy] at h
    | none =>
      simp only [hpolicy, Prod.mk.injEq, and_true] at h
      subst h
      refine ⟨isRegistered_iff.mpr ⟨dir, by simp, dir.same_refl⟩, fun d hd => ?_⟩
      simpa using hd

/-- A watcher that refuses nothing refuses no directory of a walk. -/
theorem Walk.register_acceptAll (w : Walk) (dir : Path) :
    (w.register Backend.acceptAll dir).2 = none := by
  rw [Walk.register]
  split <;> rfl

/-! ### A walk without its bound -/

/-- What a walk makes of the directories that wait, however many there will be. -/
inductive Walk.Runs (fs : FileSystem) (scope : Scope) (policy : Backend.Policy) (strict : Bool) :
    List Path → Walk → Walk × Option Refusal → Prop
  | done {w : Walk} : Runs fs scope policy strict [] w (w, none)
  | passed {dir : Path} {waiting : List Path} {w w' : Walk} {after : Walk × Option Refusal}
      (turns : w.Turns fs scope policy strict dir (.passed w'))
      (rest : Runs fs scope policy strict waiting w' after) :
      Runs fs scope policy strict (dir :: waiting) w after
  | stopped {dir : Path} {waiting : List Path} {w w' : Walk} {refusal : Refusal}
      (turns : w.Turns fs scope policy strict dir (.stopped w' refusal)) :
      Runs fs scope policy strict (dir :: waiting) w (w', some refusal)
  | entered {dir : Path} {waiting children : List Path} {w w' : Walk}
      {after : Walk × Option Refusal}
      (turns : w.Turns fs scope policy strict dir (.entered w' children))
      (rest : Runs fs scope policy strict (children.reverse ++ waiting) w' after) :
      Runs fs scope policy strict (dir :: waiting) w after

namespace Walk.Runs

variable {waiting waiting' : List Path} {after : Walk × Option Refusal} {refusal : Refusal}

/-- What waits behind other directories has its turn when these are done. -/
theorem append (h : Runs fs scope policy strict waiting w (w', none))
    (h' : Runs fs scope policy strict waiting' w' after) :
    Runs fs scope policy strict (waiting ++ waiting') w after := by
  generalize hmid : (w', (none : Option Refusal)) = mid at h
  induction h with
  | done =>
    cases hmid
    exact h'
  | passed turns _ ih => exact .passed turns (ih hmid)
  | stopped => cases hmid
  | entered turns _ ih =>
    have hrest := ih hmid
    rw [List.append_assoc] at hrest
    exact .entered turns hrest

theorem append_stopped (h : Runs fs scope policy strict waiting w (w', some refusal)) :
    Runs fs scope policy strict (waiting ++ waiting') w (w', some refusal) := by
  generalize hafter : (w', some refusal) = after at h
  induction h with
  | done => cases hafter
  | passed turns _ ih => exact .passed turns (ih hafter)
  | stopped turns =>
    cases hafter
    exact .stopped turns
  | entered turns _ ih =>
    have hrest := ih hafter
    rw [List.append_assoc] at hrest
    exact .entered turns hrest

theorem through {go : Path → Walk → Walk × Option Refusal}
    (h : ∀ d ∈ waiting, ∀ w, Runs fs scope policy strict [d] w (go d w)) (w : Walk) :
    Runs fs scope policy strict waiting w (Walk.through go waiting w) := by
  induction waiting generalizing w with
  | nil => exact .done
  | cons d waiting ih =>
    obtain ⟨hd, hwaiting⟩ := List.forall_mem_cons.mp h
    have hfirst := hd w
    rw [Walk.through]
    rcases hgo : go d w with ⟨w', _ | refusal⟩ <;> rw [hgo] at hfirst
    · exact hfirst.append (ih hwaiting w')
    · exact hfirst.append_stopped

end Walk.Runs

/-- What a walk enters from a directory has a longer path, which fits. -/
theorem Walk.Turns.length_lt {children : List Path}
    (h : w.Turns fs scope policy strict dir (.entered w' children)) {p : Path} (hp : p ∈ children) :
    dir.bytes.length < p.bytes.length ∧ p.Fits := by
  cases h with
  | entered _ _ hlist =>
    obtain ⟨hkept, henters⟩ := List.mem_filter.mp hp
    obtain ⟨n, hn, rfl⟩ := List.mem_map.mp (List.mem_filter.mp hkept).1
    obtain rfl := (FileSystem.list_eq_ok_iff.mp hlist).2
    obtain ⟨node, hnode⟩ := fs.mem_names_iff.mp hn
    have hne := (FileSystem.isEntering_of_node? hnode).1
    obtain ⟨between, -, hbytes⟩ := Path.bytes_child dir n
    refine ⟨?_, Path.fits_of_fault? (FileSystem.fault?_of_isDirectoryAt henters)⟩
    have hlength := List.length_pos_iff.mpr hne
    simp only [hbytes, List.length_append]
    omega

/-- The levels last for the paths that may still come, each longer than the one before. -/
private theorem Walk.runs_descend {levels : Nat} (h : maxPathLength ≤ dir.bytes.length + levels)
    (w : Walk) : Runs fs scope policy strict [dir] w
      (Walk.descend fs scope policy strict (levels + 1) dir w) := by
  induction levels generalizing dir w with
  | zero =>
    have hturns := Walk.turns_visit fs scope policy strict w dir
    rw [Walk.descend]
    generalize w.visit fs scope policy strict dir = visit at hturns
    cases visit with
    | passed w' => exact .passed hturns .done
    | stopped w' refusal => exact .stopped hturns
    | entered w' children =>
      -- Nothing is entered from a directory whose path is as long as it may be.
      obtain rfl : children = [] := by
        refine List.eq_nil_iff_forall_not_mem.mpr fun p hp => ?_
        obtain ⟨hlength, hfits⟩ := hturns.length_lt hp
        rw [Path.Fits] at hfits
        omega
      exact .entered hturns .done
  | succ levels ih =>
    have hturns := Walk.turns_visit fs scope policy strict w dir
    rw [Walk.descend]
    generalize w.visit fs scope policy strict dir = visit at hturns
    cases visit with
    | passed w' => exact .passed hturns .done
    | stopped w' refusal => exact .stopped hturns
    | entered w' children =>
      refine .entered hturns ?_
      rw [List.append_nil]
      refine .through (fun d hd w => ih ?_ w) w'
      obtain ⟨hlength, -⟩ := hturns.length_lt (List.mem_reverse.mp hd)
      omega

/-- A walk never meets its bound. -/
theorem runs_walk (fs : FileSystem) (scope : Scope) (policy : Backend.Policy) (strict : Bool)
    (c : Coverage) (start : Path) :
    Walk.Runs fs scope policy strict [start] { coverage := c }
      (walk fs scope policy strict c start) :=
  Walk.runs_descend (by omega) _

/-! ### Reached directories -/

/-- A directory **shows** an entry: it lists it, and the entry is not ignored. -/
def Shows (fs : FileSystem) (scope : Scope) (dir p : Path) : Prop :=
  ∃ v names, fs.list dir = .ok (v, names) ∧ p ∈ scope.kept dir names

/-- A directory **leads to** another one that it shows and that a walk enters. -/
def Leads (fs : FileSystem) (scope : Scope) (dir p : Path) : Prop :=
  Shows fs scope dir p ∧ scope.enters fs p = true

/-- The directories that a walk from `start` can come to. -/
inductive Reached (fs : FileSystem) (scope : Scope) (start : Path) : Path → Prop
  | start : Reached fs scope start start
  | next {dir p : Path} (reached : Reached fs scope start dir) (leads : Leads fs scope dir p) :
      Reached fs scope start p

/-- A walk takes the directory at the second path for the one at the first. -/
def TakenFor (fs : FileSystem) (scope : Scope) (d p : Path) : Prop :=
  d = p ∨ scope.followLinks = true ∧ (Walk.landmark fs d).Same (Walk.landmark fs p)

/-- The directory at a path is among the known ones, under this path or another. -/
def Met (fs : FileSystem) (scope : Scope) (known : List Path) (p : Path) : Prop :=
  ∃ d ∈ known, TakenFor fs scope d p

theorem Met.mono {known known' : List Path} {p : Path} (h : Met fs scope known p)
    (hsub : known ⊆ known') : Met fs scope known' p := by
  obtain ⟨d, hd, htaken⟩ := h
  exact ⟨d, hsub hd, htaken⟩

/-- Where links are kept, a directory is known under its path only. -/
theorem Met.mem {known : List Path} {p : Path} (h : Met fs scope known p)
    (hlinks : scope.followLinks = false) : p ∈ known := by
  obtain ⟨d, hd, rfl | ⟨hfollow, -⟩⟩ := h
  · exact hd
  · rw [hlinks] at hfollow
    cases hfollow

/-- The invariant of a walk from `start` that began with the coverage `c`, when the directories
`done` are behind it and `waiting` wait. -/
structure Explored (fs : FileSystem) (scope : Scope) (c : Coverage) (start : Path)
    (done waiting : List Path) (w : Walk) : Prop where
  reached : ∀ d ∈ done ++ waiting, Reached fs scope start d
  begun : Met fs scope (done ++ waiting) start
  /-- What a directory leads to is done or waits. -/
  followed : ∀ d ∈ done, ∀ p, Leads fs scope d p → Met fs scope (done ++ waiting) p
  visited : ∀ q ∈ w.visited, ∃ d ∈ done, Walk.landmark fs d = q
  /-- What is done was noted, if links are followed. -/
  noted : scope.followLinks = true → ∀ d ∈ done, Walk.landmark fs d ∈ w.visited
  registered : ∀ d ∈ done, w.coverage.isRegistered d = true
  /-- Nothing that was registered is lost. -/
  kept : c.directories ⊆ w.coverage.directories
  /-- Nothing else is registered. -/
  origin : ∀ d ∈ w.coverage.directories, d ∈ c.directories ∨ d ∈ done
  found : ∀ p, p ∈ w.found ↔ ∃ d ∈ done, Shows fs scope d p

namespace Explored

variable {c : Coverage} {start : Path} {done waiting waiting' : List Path} {w₁ : Walk}

theorem initial (fs : FileSystem) (scope : Scope) (c : Coverage) (start : Path) :
    Explored fs scope c start [] [start] { coverage := c } where
  reached := by simpa using Reached.start
  begun := ⟨start, by simp, .inl rfl⟩
  followed := by simp
  visited := by simp
  noted := by simp
  registered := by simp
  kept := fun _ h => h
  origin := fun _ h => .inl h
  found := by simp

/-- A directory that was visited need not wait. -/
theorem skip (h : Explored fs scope c start done (dir :: waiting) w)
    (hseen : w.hasVisited fs scope dir = true) : Explored fs scope c start done waiting w := by
  simp only [Walk.hasVisited, Bool.and_eq_true, List.any_eq_true, decide_eq_true_eq] at hseen
  obtain ⟨hfollow, q, hq, hsame⟩ := hseen
  obtain ⟨d, hd, rfl⟩ := h.visited q hq
  have hmet : ∀ p, Met fs scope (done ++ dir :: waiting) p → Met fs scope (done ++ waiting) p := by
    rintro p ⟨d', hd', htaken⟩
    rw [List.mem_append, List.mem_cons] at hd'
    rcases hd' with hd' | rfl | hd'
    · exact ⟨d', List.mem_append_left _ hd', htaken⟩
    · refine ⟨d, List.mem_append_left _ hd, .inr ⟨hfollow, ?_⟩⟩
      rcases htaken with rfl | ⟨-, hsame'⟩
      · exact hsame
      · exact hsame.trans hsame'
    · exact ⟨d', List.mem_append_right _ hd', htaken⟩
  have hsub : done ++ waiting ⊆ done ++ dir :: waiting :=
    ((List.sublist_cons_self dir waiting).append_left done).subset
  exact
    { h with
      reached := fun d hd => h.reached d (hsub hd)
      begun := hmet start h.begun
      followed := fun d hd p hp => hmet p (h.followed d hd p hp) }

/-- A directory is done once it is registered and what it leads to waits. -/
theorem turn (h : Explored fs scope c start done (dir :: waiting) w)
    (hregister : (w.noted fs scope dir).register policy dir = (w₁, none))
    (hwaiting : ∀ d, d ∈ waiting' ↔ d ∈ waiting ∨ Leads fs scope dir d)
    (hfound : ∀ p, p ∈ w'.found ↔ p ∈ w.found ∨ Shows fs scope dir p)
    (hcoverage : w'.coverage = w₁.coverage) (hvisited : w'.visited = w₁.visited) :
    Explored fs scope c start (dir :: done) waiting' w' := by
  have hnoted := (Walk.register_frame hregister).1
  have hgrow := Walk.subset_register hregister
  obtain ⟨hdir, hadded⟩ := Walk.register_eq_none hregister
  have hreached : Reached fs scope start dir := h.reached dir (by simp)
  have hsub : done ++ dir :: waiting ⊆ dir :: done ++ waiting' := fun d hd => by
    simp only [List.cons_append, List.mem_append, List.mem_cons, hwaiting] at hd ⊢
    tauto
  refine ⟨?_, h.begun.mono hsub, ?_, ?_, ?_, ?_, ?_, ?_, ?_⟩
  · intro d hd
    simp only [List.cons_append, List.mem_cons, List.mem_append, hwaiting] at hd
    rcases hd with rfl | hd | hd | hd
    · exact hreached
    · exact h.reached d (by simp [hd])
    · exact h.reached d (by simp [hd])
    · exact hreached.next hd
  · intro d hd p hp
    rcases List.mem_cons.mp hd with rfl | hd
    · exact ⟨p, List.mem_append_right _ ((hwaiting p).mpr (.inr hp)), .inl rfl⟩
    · exact (h.followed d hd p hp).mono hsub
  · intro q hq
    rw [hvisited, hnoted, Walk.noted] at hq
    dsimp only at hq
    split at hq
    · rcases List.mem_cons.mp hq with rfl | hq
      · exact ⟨dir, List.mem_cons_self, rfl⟩
      · obtain ⟨d, hd, hmark⟩ := h.visited q hq
        exact ⟨d, List.mem_cons_of_mem _ hd, hmark⟩
    · obtain ⟨d, hd, hmark⟩ := h.visited q hq
      exact ⟨d, List.mem_cons_of_mem _ hd, hmark⟩
  · intro hlinks d hd
    rw [hvisited, hnoted, Walk.noted]
    dsimp only
    rw [if_pos hlinks]
    rcases List.mem_cons.mp hd with rfl | hd
    · exact List.mem_cons_self
    · exact List.mem_cons_of_mem _ (h.noted hlinks d hd)
  · intro d hd
    rw [hcoverage]
    rcases List.mem_cons.mp hd with rfl | hd
    · exact hdir
    · exact isRegistered_mono hgrow (h.registered d hd)
  · rw [hcoverage]
    exact List.Subset.trans h.kept hgrow
  · intro d hd
    rw [hcoverage] at hd
    rcases hadded d hd with hd | rfl
    · exact (h.origin d hd).imp_right (List.mem_cons_of_mem _)
    · exact .inr List.mem_cons_self
  · intro p
    rw [hfound, h.found, List.exists_mem_cons_iff]
    exact or_comm

/-- A directory that cannot be read is done: it shows nothing. -/
theorem pass (h : Explored fs scope c start done (dir :: waiting) w)
    (hregister : (w.noted fs scope dir).register policy dir = (w₁, none)) {e : IoFault}
    (hlist : fs.list dir = .error e) : Explored fs scope c start (dir :: done) waiting w₁ := by
  have hshows : ∀ p, ¬Shows fs scope dir p := by
    rintro p ⟨v, names, hok, -⟩
    rw [hlist] at hok
    cases hok
  refine h.turn hregister (fun d => ?_) (fun p => ?_) rfl rfl
  · simp [Leads, hshows]
  · simp [(Walk.register_frame hregister).2, hshows, Walk.noted]

/-- A directory that is entered is done, and what it leads to waits. -/
theorem enter (h : Explored fs scope c start done (dir :: waiting) w)
    (hregister : (w.noted fs scope dir).register policy dir = (w₁, none)) {v : Place}
    {names : List Name} (hlist : fs.list dir = .ok (v, names)) :
    Explored fs scope c start (dir :: done)
      (((scope.kept dir names).filter (scope.enters fs)).reverse ++ waiting)
      { w₁ with found := w₁.found ++ scope.kept dir names } := by
  have hshows : ∀ p, Shows fs scope dir p ↔ p ∈ scope.kept dir names := by
    intro p
    constructor
    · rintro ⟨v', names', hok, hp⟩
      rw [hlist] at hok
      cases hok
      exact hp
    · exact fun hp => ⟨v, names, hlist, hp⟩
  refine h.turn hregister (fun d => ?_) (fun p => ?_) rfl rfl
  · rw [Leads, hshows, List.mem_append, List.mem_reverse, List.mem_filter]
    exact or_comm
  · rw [hshows, List.mem_append, (Walk.register_frame hregister).2, Walk.noted]

/-- Where links are kept, a walk that is not stopped is done with exactly the directories that it
can come to. -/
theorem mem_done_iff (h : Explored fs scope c start done [] w) (hlinks : scope.followLinks = false)
    {d : Path} : d ∈ done ↔ Reached fs scope start d := by
  have hmem : ∀ {d}, Met fs scope (done ++ []) d → d ∈ done := fun hmet => by
    simpa using hmet.mem hlinks
  refine ⟨fun hd => h.reached d (List.mem_append_left _ hd), fun hd => ?_⟩
  induction hd with
  | start => exact hmem h.begun
  | next _ hleads ih => exact hmem (h.followed _ ih _ hleads)

end Explored

/-- A walk that refuses no directory explores everything it can come to, and what is done stays
done. -/
theorem Walk.Runs.explored_from {c : Coverage} {start : Path} {waiting done : List Path}
    {after : Walk × Option Refusal} (hrun : Runs fs scope policy strict waiting w after)
    (h : Explored fs scope c start done waiting w) (hnone : after.2 = none) :
    ∃ done', done ⊆ done' ∧ Explored fs scope c start done' [] after.1 := by
  induction hrun generalizing done with
  | done => exact ⟨done, List.Subset.refl done, h⟩
  | passed hturns _ ih =>
    cases hturns with
    | known hseen => exact ih (h.skip hseen) hnone
    | unreadable _ hregister hlist =>
      obtain ⟨done', hsub, hdone⟩ := ih (h.pass hregister hlist) hnone
      exact ⟨done', List.subset_of_cons_subset hsub, hdone⟩
  | stopped => cases hnone
  | entered hturns _ ih =>
    cases hturns with
    | entered _ hregister hlist =>
      obtain ⟨done', hsub, hdone⟩ := ih (h.enter hregister hlist) hnone
      exact ⟨done', List.subset_of_cons_subset hsub, hdone⟩

theorem Walk.Runs.explored {c : Coverage} {start : Path} {waiting done : List Path}
    {after : Walk × Option Refusal} (hrun : Runs fs scope policy strict waiting w after)
    (h : Explored fs scope c start done waiting w) (hnone : after.2 = none) :
    ∃ done', Explored fs scope c start done' [] after.1 :=
  (hrun.explored_from h hnone).imp fun _ => And.right

/-- A walk from one directory that is not stopped is done with this directory under the path from
which it has started. -/
theorem Walk.Runs.explored_start {c : Coverage} {start : Path} {after : Walk × Option Refusal}
    (hrun : Runs fs scope policy strict [start] { coverage := c } after) (hnone : after.2 = none) :
    ∃ done, start ∈ done ∧ Explored fs scope c start done [] after.1 := by
  have hbegun := Explored.initial fs scope c start
  cases hrun with
  | stopped => cases hnone
  | passed turns rest =>
    cases turns with
    | known hseen => simp [Walk.hasVisited] at hseen
    | unreadable _ hregister hlist =>
      obtain ⟨done, hsub, hdone⟩ := rest.explored_from (hbegun.pass hregister hlist) hnone
      exact ⟨done, hsub List.mem_cons_self, hdone⟩
  | entered turns rest =>
    cases turns with
    | entered _ hregister hlist =>
      obtain ⟨done, hsub, hdone⟩ := rest.explored_from (hbegun.enter hregister hlist) hnone
      exact ⟨done, hsub List.mem_cons_self, hdone⟩

/-- A walk that is refused nothing is stopped only if it is strict, by a directory that it comes to
and cannot read. -/
theorem Walk.Runs.unreadable {start : Path} {waiting : List Path} {refusal : Refusal}
    (hrun : Runs fs scope Backend.acceptAll strict waiting w (w', some refusal))
    (hwaiting : ∀ d ∈ waiting, Reached fs scope start d) :
    strict = true ∧ Reached fs scope start refusal.path ∧
      ∃ e, fs.list refusal.path = .error e ∧ refusal.reason = e.message := by
  generalize hafter : (w', some refusal) = after at hrun
  induction hrun with
  | done => cases hafter
  | passed _ _ ih => exact ih (fun d hd => hwaiting d (List.mem_cons_of_mem _ hd)) hafter
  | @stopped dir waiting w w' refusal hturns =>
    cases hafter
    cases hturns with
    | refused _ hregister =>
      have := Walk.register_acceptAll (w.noted fs scope dir) dir
      rw [hregister] at this
      cases this
    | ended _ _ hlist hstrict => exact ⟨hstrict, hwaiting dir List.mem_cons_self, _, hlist, rfl⟩
  | @entered dir waiting children w w' after hturns _ ih =>
    cases hturns with
    | entered _ _ hlist =>
      refine ih (fun d hd => ?_) hafter
      rw [List.mem_append, List.mem_reverse, List.mem_filter] at hd
      rcases hd with ⟨hkept, henters⟩ | hd
      · exact (hwaiting dir List.mem_cons_self).next ⟨⟨_, _, hlist, hkept⟩, henters⟩
      · exact hwaiting d (List.mem_cons_of_mem _ hd)

/-- With a watcher that refuses nothing, a walk explores everything it can come to. A strict one
needs for this that it can read what it comes to. -/
theorem explored_walk (c : Coverage) (start : Path)
    (hread : strict = true → ∀ d, Reached fs scope start d → (fs.list d).isOk = true) :
    ∃ w done, walk fs scope Backend.acceptAll strict c start = (w, none) ∧
      Explored fs scope c start done [] w := by
  have hruns := runs_walk fs scope Backend.acceptAll strict c start
  have hnone : (walk fs scope Backend.acceptAll strict c start).2 = none := by
    rw [Option.eq_none_iff_forall_ne_some]
    intro refusal hstopped
    rw [← Prod.eta (walk fs scope Backend.acceptAll strict c start), hstopped] at hruns
    obtain ⟨hstrict, hreached, e, hlist, -⟩ := hruns.unreadable (by simpa using Reached.start)
    have hok := hread hstrict _ hreached
    rw [hlist] at hok
    cases hok
  obtain ⟨done, hdone⟩ := hruns.explored (.initial fs scope c start) hnone
  exact ⟨_, done, Prod.ext rfl hnone, hdone⟩

end Coverage

end WorkspaceWatch
