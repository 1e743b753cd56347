import WorkspaceWatch.Proofs.Coverage.Walk

/-!
# What a walk adds

A walk adds to a coverage and takes nothing away from it. `walk_keeps` is the way to prove what
holds of it in the end: whatever is kept when the watcher accepts a directory and when the entries
of a directory are found holds of the last state of the walk, or of the one in which the watcher
refused a directory. `Walk.Runs.keeps` is the same for what depends on the watcher's answers.

`Grew` says what is different after a walk. Behind the directories that were registered, and behind
the watches that were live, there are those that the walk has added. Each of these the watcher was
asked for, and it was asked for at most one path more, the one that it refused. No path was asked
for that was registered before, and none twice.
-/

namespace WorkspaceWatch

namespace Coverage

variable {fs : FileSystem} {scope : Scope} {policy : Backend.Policy} {strict : Bool}
  {c c' : Coverage} {w w' : Walk} {dir start : Path}

/-! ### What is kept along a walk -/

/-- `Q` holds of each directory to which a walk turns, and `P` of each of its states: of the last
one too, unless the watcher refuses a directory there. -/
theorem Walk.Runs.keeps {Q : Path → Prop} {P : Walk → Prop} {waiting : List Path}
    {after : Walk × Option Refusal} (hrun : Runs fs scope policy strict waiting w after)
    (hleads : ∀ {d p}, Q d → Leads fs scope d p → Q p)
    (hregister : ∀ {w w' dir}, Q dir → w.hasVisited fs scope dir = false →
      (w.noted fs scope dir).register policy dir = (w', none) → P w → P w')
    (hfound : ∀ {w dir v names}, Q dir → fs.list dir = .ok (v, names) → P w →
      P { w with found := w.found ++ scope.kept dir names })
    (hwaiting : ∀ d ∈ waiting, Q d) (hw : P w) :
    P after.1 ∨ ∃ w₀ dir refusal, Q dir ∧ P w₀ ∧
      (w₀.noted fs scope dir).register policy dir = (after.1, some refusal) := by
  induction hrun with
  | done => exact .inl hw
  | @passed dir waiting w w' after hturns _ ih =>
    obtain ⟨hdir, hwaiting⟩ := List.forall_mem_cons.mp hwaiting
    cases hturns with
    | known => exact ih hwaiting hw
    | unreadable hnew hreg => exact ih hwaiting (hregister hdir hnew hreg hw)
  | @stopped dir waiting w w' refusal hturns =>
    have hdir := hwaiting dir List.mem_cons_self
    -- A walk is stopped by a refusal or, a strict one, by a directory that cannot be read. That
    -- one was registered before it was read.
    cases hturns with
    | refused _ hreg => exact .inr ⟨w, dir, refusal, hdir, hw, hreg⟩
    | ended hnew hreg => exact .inl (hregister hdir hnew hreg hw)
  | @entered dir waiting children w w' after hturns _ ih =>
    obtain ⟨hdir, hwaiting⟩ := List.forall_mem_cons.mp hwaiting
    cases hturns with
    | @entered w₁ v names hnew hreg hlist =>
      refine ih (fun d hd => ?_) (hfound hdir hlist (hregister hdir hnew hreg hw))
      rw [List.mem_append, List.mem_reverse, List.mem_filter] at hd
      rcases hd with ⟨hkept, henters⟩ | hd
      · exact hleads hdir ⟨⟨v, names, hlist, hkept⟩, henters⟩
      · exact hwaiting d hd

/-! ### One directory more -/

/-- The coverage after the watcher was asked for a path and has accepted it. -/
def enrolled (c : Coverage) (p : Path) : Coverage :=
  { c with
    directories := c.directories ++ [p]
    backend := { live := c.backend.live ++ [p], attempts := c.backend.attempts ++ [p] } }

/-- The coverage after the watcher was asked for a path and has refused it. -/
def rebuffed (c : Coverage) (p : Path) : Coverage :=
  { c with backend := { c.backend with attempts := c.backend.attempts ++ [p] } }

/-- What can come of registering a directory in the course of a walk. -/
inductive Walk.Registers (w : Walk) (dir : Path) : Walk × Option Refusal → Prop
  | known (registered : w.coverage.isRegistered dir = true) : Registers w dir (w, none)
  | accepted (free : w.coverage.isRegistered dir = false) :
      Registers w dir
        ({ w with coverage := w.coverage.enrolled dir, added := w.added ++ [dir] }, none)
  | refused (free : w.coverage.isRegistered dir = false) (refusal : Refusal) :
      Registers w dir ({ w with coverage := w.coverage.rebuffed dir }, some refusal)

theorem Walk.registers_register (policy : Backend.Policy) (w : Walk) (dir : Path) :
    w.Registers dir (w.register policy dir) := by
  rw [Walk.register]
  by_cases hregistered : w.coverage.isRegistered dir = true
  · rw [if_pos hregistered]
    exact .known hregistered
  · rw [if_neg hregistered]
    have hfree : w.coverage.isRegistered dir = false := by simpa using hregistered
    rw [Coverage.watch]
    cases policy w.coverage.backend dir with
    | none => exact .accepted hfree
    | some reason => exact .refused hfree ⟨dir, reason⟩

/-- As long as the watcher refuses nothing `P` is kept; `R` holds after a walk, whether it has gone
on until then or the watcher has refused a directory. -/
theorem walk_keeps {Q : Path → Prop} {P R : Walk → Prop}
    (hleads : ∀ {d p}, Q d → Leads fs scope d p → Q p)
    (hnoted : ∀ {w dir}, P w → P (w.noted fs scope dir))
    (henrol : ∀ {w dir}, Q dir → w.hasVisited fs scope dir = false →
      w.coverage.isRegistered dir = false → P w → P
        { w.noted fs scope dir with
          coverage := w.coverage.enrolled dir
          added := w.added ++ [dir] })
    (hfound : ∀ {w dir v names}, Q dir → fs.list dir = .ok (v, names) → P w →
      P { w with found := w.found ++ scope.kept dir names })
    (hdone : ∀ {w}, P w → R w)
    (hrebuff : ∀ {w dir}, w.coverage.isRegistered dir = false → P w →
      R { w with coverage := w.coverage.rebuffed dir })
    (hstart : Q start) (hc : P { coverage := c }) : R (walk fs scope policy strict c start).1 := by
  have hkept := (runs_walk fs scope policy strict c start).keeps hleads
    (fun {w w' dir} hdir hnew hregister hw => ?_) hfound (by simpa using hstart) hc
  · rcases hkept with hw | ⟨w, dir, refusal, -, hw, hregister⟩
    · exact hdone hw
    · have hcases := Walk.registers_register policy (w.noted fs scope dir) dir
      rw [hregister] at hcases
      generalize (walk fs scope policy strict c start).1 = after at hcases
      cases hcases with
      | refused hfree => exact hrebuff hfree (hnoted hw)
  · have hcases := Walk.registers_register policy (w.noted fs scope dir) dir
    rw [hregister] at hcases
    cases hcases with
    | known => exact hnoted hw
    | accepted hfree => exact henrol hdir hnew hfree hw

/-! ### Growth -/

/-- The coverage `c'` has come from `c` by asking the watcher for the paths `asked` in turn; it has
accepted the paths `added`. -/
structure Grew (c : Coverage) (added asked : List Path) (c' : Coverage) : Prop where
  directories : c'.directories = c.directories ++ added
  live : c'.backend.live = c.backend.live ++ added
  attempts : c'.backend.attempts = c.backend.attempts ++ asked
  /-- The watcher was not asked for anything else before the last path that it accepted. -/
  accepted : added <+: asked
  /-- It was asked for nothing that was registered. -/
  free : ∀ p ∈ asked, c.isRegistered p = false
  /-- It was asked for nothing twice. -/
  distinct : asked.Pairwise fun p q => ¬p.Same q

namespace Grew

variable {added asked : List Path}

theorem refl (c : Coverage) : Grew c [] [] c where
  directories := (List.append_nil _).symm
  live := (List.append_nil _).symm
  attempts := (List.append_nil _).symm
  accepted := List.prefix_rfl
  free := by simp
  distinct := List.Pairwise.nil

/-- A path that is not registered after some were added was not registered before and is none of
these. -/
private theorem fresh (h : Grew c added added c') (hfree : c'.isRegistered dir = false) :
    (∀ p ∈ added ++ [dir], c.isRegistered p = false) ∧
      (added ++ [dir]).Pairwise fun p q => ¬p.Same q := by
  rw [isRegistered, h.directories, List.any_append, Bool.or_eq_false_iff,
    List.any_eq_false] at hfree
  obtain ⟨hbefore, hadded⟩ := hfree
  constructor
  · intro p hp
    rcases List.mem_append.mp hp with hp | hp
    · exact h.free p hp
    · rw [List.mem_singleton.mp hp, isRegistered, List.any_eq_false]
      exact hbefore
  · refine List.pairwise_append.mpr ⟨h.distinct, List.pairwise_singleton _ _, ?_⟩
    simpa using hadded

theorem enrol (h : Grew c added added c') (hfree : c'.isRegistered dir = false) :
    Grew c (added ++ [dir]) (added ++ [dir]) (c'.enrolled dir) where
  directories := by rw [enrolled, h.directories, List.append_assoc]
  live := by rw [enrolled, h.live, List.append_assoc]
  attempts := by rw [enrolled, h.attempts, List.append_assoc]
  accepted := List.prefix_rfl
  free := (h.fresh hfree).1
  distinct := (h.fresh hfree).2

theorem rebuff (h : Grew c added added c') (hfree : c'.isRegistered dir = false) :
    Grew c added (added ++ [dir]) (c'.rebuffed dir) where
  directories := h.directories
  live := h.live
  attempts := by rw [rebuffed, h.attempts, List.append_assoc]
  accepted := List.prefix_append _ _
  free := (h.fresh hfree).1
  distinct := (h.fresh hfree).2

end Grew

/-- **What a walk adds**: the paths that it has registered. It counts nothing. -/
theorem grew_walk (fs : FileSystem) (scope : Scope) (policy : Backend.Policy) (strict : Bool)
    (c : Coverage) (start : Path) :
    (∃ asked, Grew c (walk fs scope policy strict c start).1.added asked
      (walk fs scope policy strict c start).1.coverage) ∧
    (walk fs scope policy strict c start).1.coverage.tally = c.tally := by
  -- As long as nothing was refused, the watcher has accepted all that it was asked for.
  refine walk_keeps (Q := fun _ => True)
    (P := fun w => Grew c w.added w.added w.coverage ∧ w.coverage.tally = c.tally)
    (R := fun w => (∃ asked, Grew c w.added asked w.coverage) ∧ w.coverage.tally = c.tally)
    (fun _ _ => trivial) id (fun _ _ hfree hw => ⟨hw.1.enrol hfree, hw.2⟩) (fun _ _ hw => hw)
    (fun hw => ⟨⟨_, hw.1⟩, hw.2⟩) (fun hfree hw => ⟨⟨_, hw.1.rebuff hfree⟩, hw.2⟩) trivial
    ⟨.refl c, rfl⟩

/-! ### Counting -/

/-- What has come of a walk is counted, and nothing else is changed. -/
theorem Walk.account_frame (w : Walk) (refusal? : Option Refusal) :
    (w.account refusal?).directories = w.coverage.directories ∧
      (w.account refusal?).backend = w.coverage.backend := by
  rw [Walk.account]
  split <;> split <;> exact ⟨rfl, rfl⟩

theorem Grew.account {added asked : List Path} {refusal? : Option Refusal}
    (h : Grew c added asked w.coverage) : Grew c added asked (w.account refusal?) := by
  obtain ⟨hdirectories, hbackend⟩ := w.account_frame refusal?
  exact { h with
    directories := hdirectories.trans h.directories
    live := (congrArg Backend.live hbackend).trans h.live
    attempts := (congrArg Backend.attempts hbackend).trans h.attempts }

/-- The directories that the walk has registered are counted. -/
theorem Walk.directoriesRegistered_account (w : Walk) (refusal? : Option Refusal) :
    (w.account refusal?).tally.directoriesRegistered =
      w.coverage.tally.directoriesRegistered + UInt64.ofNat w.added.length := by
  rw [Walk.account]
  by_cases hnone : w.added = []
  · rw [if_pos hnone, hnone]
    split <;> simp [record, Tally.record]
  · rw [if_neg hnone]
    split <;> simp [record, Tally.record]

/-- One failure is counted if the walk was stopped. -/
theorem Walk.registrationFailures_account (w : Walk) (refusal? : Option Refusal) :
    (w.account refusal?).tally.registrationFailures =
      w.coverage.tally.registrationFailures + if refusal? = none then 0 else 1 := by
  rw [Walk.account]
  cases refusal? <;> split <;> simp [record, Tally.record]

/-- What is added for a directory that has appeared is what the walk through it adds, and so many
directories are counted. -/
theorem grew_registerCreated (fs : FileSystem) (scope : Scope) (policy : Backend.Policy)
    (c : Coverage) (dir : Path) :
    (∃ asked, Grew c (walk fs scope policy false c dir).1.added asked
      (c.registerCreated fs scope policy dir).1) ∧
    (c.registerCreated fs scope policy dir).1.tally.directoriesRegistered =
      c.tally.directoriesRegistered +
        UInt64.ofNat (walk fs scope policy false c dir).1.added.length := by
  obtain ⟨⟨asked, hgrew⟩, htally⟩ := grew_walk fs scope policy false c dir
  rw [registerCreated]
  refine ⟨⟨asked, hgrew.account⟩, ?_⟩
  rw [Walk.directoriesRegistered_account, htally]

/-! ### Forgetting -/

/-- Directories are forgotten in one go as they are one after the other. -/
theorem foldl_unwatch (doomed : List Path) (c : Coverage) :
    doomed.foldl unwatch c =
      { c with
        directories := c.directories.filter fun d => !doomed.any (d.Same ·)
        backend := { c.backend with
          live := c.backend.live.filter fun d => !doomed.any (d.Same ·) } } := by
  induction doomed generalizing c with
  | nil => simp
  | cons p doomed ih =>
    rw [List.foldl_cons, ih, unwatch]
    simp only [List.filter_filter, List.any_cons, Bool.not_or, Bool.and_comm]

/-- What is no spelling of a forgotten path stays where it is. -/
theorem filter_forgotten {base added forgotten : List Path}
    (h : ∀ p ∈ forgotten, ∀ d ∈ base, ¬d.Same p) :
    (base ++ added).filter (fun d => !forgotten.any (d.Same ·)) =
      base ++ added.filter fun d => !forgotten.any (d.Same ·) := by
  rw [List.filter_append, List.filter_eq_self.mpr]
  intro d hd
  simp only [Bool.not_eq_true', List.any_eq_false, decide_eq_true_eq]
  exact fun p hp => h p hp d hd

/-- Nothing is left of what is forgotten. -/
theorem filter_self (added : List Path) :
    added.filter (fun d => !added.any (d.Same ·)) = [] := by
  rw [List.filter_eq_nil_iff]
  intro p hp
  simpa using ⟨p, hp, p.same_refl⟩

/-- Forgetting what was added leaves what there was before. -/
theorem Grew.filter_added {added asked : List Path} (h : Grew c added asked c') :
    (c.directories ++ added).filter (fun d => !added.any (d.Same ·)) = c.directories := by
  rw [filter_forgotten, filter_self, List.append_nil]
  exact fun p hp d hd => not_same_of_mem (h.free p (h.accepted.subset hp)) hd

/-- **All or nothing**: after a root was registered, everything is registered that the walk has
registered, or nothing more than before. -/
theorem directories_registerRoot (fs : FileSystem) (scope : Scope) (policy : Backend.Policy)
    (c : Coverage) (root : Path) :
    (c.registerRoot fs scope policy root).1.directories =
        (walk fs scope policy true c root).1.coverage.directories ∨
      (c.registerRoot fs scope policy root).1.directories = c.directories := by
  obtain ⟨⟨asked, hgrew⟩, -⟩ := grew_walk fs scope policy true c root
  rw [registerRoot]
  split
  · next w heq =>
    rw [heq]
    exact .inl rfl
  · next w refusal heq =>
    rw [heq] at hgrew
    right
    show (w.added.foldl unwatch w.coverage).directories = c.directories
    rw [foldl_unwatch, hgrew.directories]
    exact hgrew.filter_added

/-- Forgetting a directory leaves exactly what does not lie within it. -/
theorem directories_unregister (c : Coverage) (dir : Path) :
    (c.unregister dir).1.directories = c.directories.filter fun d => !decide (d.Within dir) := by
  rw [unregister, foldl_unwatch]
  refine List.filter_congr fun d hd => ?_
  rw [Bool.not_inj_iff, Bool.eq_iff_iff]
  simp only [List.any_eq_true, List.mem_filter, decide_eq_true_eq]
  constructor
  · rintro ⟨d', ⟨-, hwithin⟩, hsame⟩
    rwa [Path.Within, hsame]
  · exact fun hwithin => ⟨d, ⟨hd, hwithin⟩, d.same_refl⟩

theorem mem_directories_unregister {d : Path} :
    d ∈ (c.unregister dir).1.directories ↔ d ∈ c.directories ∧ ¬d.Within dir := by
  simp [directories_unregister]

end Coverage

end WorkspaceWatch
