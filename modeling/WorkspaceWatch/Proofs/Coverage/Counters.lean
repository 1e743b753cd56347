import WorkspaceWatch.Proofs.Coverage.Growth

/-!
# What does not read the counters

What is registered, and what is found, does not depend on what was counted before
(`Coverage.walk_counting`). Of the counters there are two that only noise moves and that nothing
else does, those of ignored changes and of errors; two coverages that differ in nothing else
(`Coverage.Agrees`) still do so after the same has been done to both.
-/

namespace WorkspaceWatch

/-- The counters without those of ignored changes and of errors. -/
def Tally.hushed (t : Tally) : Tally := { t with eventsIgnored := 0, observationErrors := 0 }

namespace Coverage

variable {fs : FileSystem} {scope : Scope} {policy : Backend.Policy} {strict : Bool}
  {c c' : Coverage} {dir : Path}

/-! ### Walks count nothing -/

/-- The coverage with other counters. -/
def counting (c : Coverage) (t : Tally) : Coverage := { c with tally := t }

/-- The walk with other counters. -/
def Walk.counting (w : Walk) (t : Tally) : Walk := { w with coverage := w.coverage.counting t }

/-- What has come of turning to a directory, with other counters. -/
def Visit.counting (t : Tally) : Visit → Visit
  | passed w => .passed (w.counting t)
  | entered w children => .entered (w.counting t) children
  | stopped w refusal => .stopped (w.counting t) refusal

/-- Whether a directory is registered, and whether the watcher takes it, does not depend on the
counters. -/
theorem Walk.register_counting (w : Walk) (t : Tally) (dir : Path) :
    (w.counting t).register policy dir =
      ((w.register policy dir).1.counting t, (w.register policy dir).2) := by
  rw [Walk.register, Walk.register]
  by_cases hregistered : w.coverage.isRegistered dir = true
  · rw [if_pos hregistered]
    exact if_pos hregistered
  · rw [if_neg hregistered]
    refine (if_neg hregistered).trans ?_
    rw [Coverage.watch, Coverage.watch, Walk.counting, Coverage.counting]
    cases policy w.coverage.backend dir <;> rfl

theorem Walk.visit_counting (w : Walk) (t : Tally) (dir : Path) :
    (w.counting t).visit fs scope policy strict dir =
      (w.visit fs scope policy strict dir).counting t := by
  have hregister : ((w.counting t).noted fs scope dir).register policy dir = _ :=
    Walk.register_counting (w.noted fs scope dir) t dir
  have hvisited : (w.counting t).hasVisited fs scope dir = w.hasVisited fs scope dir := rfl
  rw [Walk.visit, Walk.visit, Walk.approach, Walk.approach, hvisited, hregister]
  cases w.hasVisited fs scope dir with
  | true => rfl
  | false =>
    rcases (w.noted fs scope dir).register policy dir with ⟨w₁, _ | refusal⟩
    · cases fs.list dir with
      | error e => cases strict <;> rfl
      | ok listed => rfl
    · rfl

theorem Walk.through_counting {t : Tally} {go : Path → Walk → Walk × Option Refusal}
    (hgo : ∀ dir w, go dir (w.counting t) = ((go dir w).1.counting t, (go dir w).2))
    (waiting : List Path) (w : Walk) :
    Walk.through go waiting (w.counting t) =
      ((Walk.through go waiting w).1.counting t, (Walk.through go waiting w).2) := by
  induction waiting generalizing w with
  | nil => rfl
  | cons dir waiting ih =>
    rw [Walk.through, Walk.through, hgo]
    rcases go dir w with ⟨w', _ | refusal⟩
    · exact ih w'
    · rfl

theorem Walk.descend_counting (t : Tally) (levels : Nat) (dir : Path) (w : Walk) :
    Walk.descend fs scope policy strict levels dir (w.counting t) =
      ((Walk.descend fs scope policy strict levels dir w).1.counting t,
        (Walk.descend fs scope policy strict levels dir w).2) := by
  induction levels generalizing dir w with
  | zero => rfl
  | succ levels ih =>
    rw [Walk.descend, Walk.descend, Walk.visit_counting]
    cases w.visit fs scope policy strict dir with
    | passed w' => rfl
    | stopped w' refusal => rfl
    | entered w' children => exact Walk.through_counting ih children.reverse w'

/-- **A walk does not read the counters**, and leaves them as they are. -/
theorem walk_counting (fs : FileSystem) (scope : Scope) (policy : Backend.Policy) (strict : Bool)
    (c : Coverage) (t : Tally) (start : Path) :
    walk fs scope policy strict (c.counting t) start =
      ((walk fs scope policy strict c start).1.counting t,
        (walk fs scope policy strict c start).2) :=
  Walk.descend_counting t _ start { coverage := c }

/-! ### Two coverages that differ in what noise is counted by -/

/-- The coverages differ at most in how many changes were ignored and how many errors there were. -/
structure Agrees (c c' : Coverage) : Prop where
  directories : c.directories = c'.directories
  backend : c.backend = c'.backend
  tally : c.tally.hushed = c'.tally.hushed

namespace Agrees

theorem refl (c : Coverage) : c.Agrees c := ⟨rfl, rfl, rfl⟩

/-- The one is the other with other counters. -/
theorem eq_counting (h : c.Agrees c') : c' = c.counting c'.tally := by
  rw [counting, h.directories, h.backend]

theorem isRegistered (h : c.Agrees c') (p : Path) : c.isRegistered p = c'.isRegistered p := by
  rw [Coverage.isRegistered, Coverage.isRegistered, h.directories]

theorem files (h : c.Agrees c') : c.files fs scope = c'.files fs scope := by
  rw [Coverage.files, Coverage.files, h.directories]

theorem record (h : c.Agrees c') (o : Occurrence) : (c.record o).Agrees (c'.record o) where
  directories := h.directories
  backend := h.backend
  tally := by
    have htally : ∀ t : Tally, (t.record o).hushed = (t.hushed.record o).hushed := fun t => by
      cases o <;> rfl
    rw [Coverage.record, Coverage.record, htally, h.tally, ← htally]

/-- Ignored changes and errors are what the coverages may differ in. -/
theorem record_left (h : c.Agrees c') {o : Occurrence}
    (ho : o = .eventIgnored ∨ o = .observationError) : (c.record o).Agrees c' where
  directories := h.directories
  backend := h.backend
  tally := by
    rw [← h.tally]
    rcases ho with rfl | rfl <;> rfl

theorem registerCreated (h : c.Agrees c') (fs : FileSystem) (scope : Scope)
    (policy : Backend.Policy) (dir : Path) :
    (c.registerCreated fs scope policy dir).1.Agrees (c'.registerCreated fs scope policy dir).1 ∧
      (c.registerCreated fs scope policy dir).2 = (c'.registerCreated fs scope policy dir).2 := by
  have htally := (grew_walk fs scope policy false c dir).2
  rw [h.eq_counting, Coverage.registerCreated, Coverage.registerCreated, walk_counting]
  refine ⟨?_, rfl⟩
  generalize walk fs scope policy false c dir = after at htally ⊢
  obtain ⟨w, refusal?⟩ := after
  have hwalk : w.coverage.Agrees (w.counting c'.tally).coverage :=
    ⟨rfl, rfl, (congrArg Tally.hushed htally).trans h.tally⟩
  show Agrees (w.account refusal?) ((w.counting c'.tally).account refusal?)
  rw [Walk.account, Walk.account]
  -- Whether there was a refusal, and whether anything was registered, is the same for both.
  have hrefusal : Agrees
      (if refusal?.isSome then w.coverage.record .registrationFailure else w.coverage)
      (if refusal?.isSome then (w.counting c'.tally).coverage.record .registrationFailure
        else (w.counting c'.tally).coverage) := by
    split
    · exact hwalk.record _
    · exact hwalk
  change Agrees (if w.added = [] then _ else _) (if w.added = [] then _ else _)
  split
  · exact hrefusal
  · exact hrefusal.record _

theorem unregister (h : c.Agrees c') : (c.unregister dir).1.Agrees (c'.unregister dir).1 := by
  rw [Coverage.unregister, Coverage.unregister, foldl_unwatch, foldl_unwatch, h.directories,
    h.backend]
  exact ⟨rfl, rfl, h.tally⟩

end Agrees

end Coverage

end WorkspaceWatch
