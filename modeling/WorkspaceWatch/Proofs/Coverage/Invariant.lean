import WorkspaceWatch.Proofs.Coverage.Growth
import WorkspaceWatch.Proofs.Loop.Deadline

/-!
# Invariants of the coverage

All that happens to a coverage comes down to three things: a directory that is not registered is
put to the watcher, a directory is forgotten, an occurrence is counted. A property that each of
these keeps (`Coverage.IsInvariant`) is kept by walks, by registering and forgetting whole trees, by
taking in a notice, and hence by every run of the loop (`Coverage.IsInvariant.run`), whatever the
file system does in between and whatever the watcher refuses.

The first use of this is that no directory is registered twice (`Coverage.IsDistinct`), whatever
spellings of it come up.
-/

namespace WorkspaceWatch

namespace Coverage

variable {fs : FileSystem} {scope : Scope} {policy : Backend.Policy} {strict : Bool}
  {P : Coverage → Prop} {c : Coverage} {dir : Path}

/-- The property is kept by whatever can happen to a coverage. -/
structure IsInvariant (policy : Backend.Policy) (P : Coverage → Prop) : Prop where
  watch : ∀ {c dir}, P c → c.isRegistered dir = false → P (c.watch policy dir).1
  unwatch : ∀ {c} dir, P c → P (c.unwatch dir)
  record : ∀ {c} o, P c → P (c.record o)

namespace IsInvariant

variable (h : IsInvariant policy P)
include h

/-! ### Walks -/

theorem register {w w' : Walk} {refusal? : Option Refusal}
    (hregister : w.register policy dir = (w', refusal?)) (hw : P w.coverage) : P w'.coverage := by
  rw [Walk.register] at hregister
  by_cases hregistered : w.coverage.isRegistered dir = true
  · rw [if_pos hregistered] at hregister
    cases hregister
    exact hw
  · rw [if_neg hregistered] at hregister
    have hwatch := h.watch hw (by simpa using hregistered)
    split at hregister <;> next heq =>
      cases hregister
      rwa [heq] at hwatch

theorem walk (start : Path) (hc : P c) : P (walk fs scope policy strict c start).1.coverage := by
  rcases (runs_walk fs scope policy strict c start).keeps (Q := fun _ => True)
    (P := fun w => P w.coverage) (fun _ _ => trivial)
    (fun {w _ dir} _ _ hregister hw => h.register (w := w.noted fs scope dir) hregister hw)
    (fun _ _ hw => hw) (by simp) hc with hw | ⟨w, dir, refusal, -, hw, hregister⟩
  · exact hw
  · exact h.register (w := w.noted fs scope dir) hregister hw

/-! ### Registering and forgetting -/

theorem foldl_unwatch (doomed : List Path) (hc : P c) : P (doomed.foldl Coverage.unwatch c) := by
  induction doomed generalizing c with
  | nil => exact hc
  | cons p doomed ih => exact ih (h.unwatch p hc)

theorem registerRoot (root : Path) (hc : P c) : P (c.registerRoot fs scope policy root).1 := by
  -- A walk that was refused is undone one directory at a time.
  have hwalk : P (Coverage.walk fs scope policy true c root).1.coverage := h.walk root hc
  rw [Coverage.registerRoot]
  split <;> next heq =>
    rw [heq] at hwalk
    first
    | exact h.record _ hwalk
    | exact h.foldl_unwatch _ hwalk

theorem account {w : Walk} (refusal? : Option Refusal) (hw : P w.coverage) :
    P (w.account refusal?) := by
  have hrefusal : P (if refusal?.isSome then w.coverage.record .registrationFailure
      else w.coverage) := by
    split
    · exact h.record _ hw
    · exact hw
  rw [Walk.account]
  split
  · exact hrefusal
  · exact h.record _ hrefusal

theorem registerCreated (hc : P c) : P (c.registerCreated fs scope policy dir).1 :=
  h.account _ (h.walk dir hc)

theorem unregister (hc : P c) : P (c.unregister dir).1 := h.foldl_unwatch _ hc

end IsInvariant

/-! ### Taking in notices -/

namespace IsInvariant

variable {plan : Plan} (h : IsInvariant plan.policy P)
include h

theorem absorb (change : Change) (hc : P c) : P (Intake.absorb plan fs c change).1 := by
  have hobserved := h.record .eventObserved hc
  have habsorbs := Intake.absorbs_absorb plan fs c change
  generalize Intake.absorb plan fs c change = after at habsorbs ⊢
  cases habsorbs with
  | ignored => exact h.record _ hc
  | appeared => exact h.registerCreated hobserved
  | vanished => exact h.unregister hobserved
  | queued => exact hobserved

theorem absorbAll (changes : List Change) (hc : P c) :
    P (Intake.absorbAll plan fs c changes).1 := by
  induction changes generalizing c with
  | nil => exact hc
  | cons change changes ih => exact ih (h.absorb change hc)

theorem handle {i : Intake} {now : Nat} (notice : Notice) (hi : P i.coverage) :
    P (i.handle plan fs now notice).1.coverage := by
  cases notice with
  | fault text => exact h.record _ hi
  | signal s =>
    refine h.absorbAll _ ?_
    split
    · rw [Intake.noteLoss]
      dsimp only
      split <;> exact h.record _ hi
    · exact hi

theorem conclude {i : Intake} (accepted : Bool) (hi : P i.coverage) :
    P (i.conclude plan accepted).coverage := by
  cases accepted <;> exact h.record _ hi

/-! ### Runs -/

theorem step {l : Loop} {m : Move} {after : Loop × List Record} (hstep : Loop.Step plan l m after)
    (hl : P l.intake.coverage) : P after.1.intake.coverage := by
  cases hstep with
  | came intake => rwa [intake]
  | finished | busy | idle | stopped | abandoned => exact hl
  | handled => exact h.handle _ hl
  | flushed _ _ _ _ flush | handed _ _ _ _ flush =>
    rw [Intake.eq_of_flush flush]
    exact hl
  | concluded => exact h.conclude _ hl

/-- What is kept by whatever happens to a coverage is kept by every run of the loop. -/
theorem run {l : Loop} (ms : List Move) (hl : P l.intake.coverage) :
    P (l.run plan ms).1.intake.coverage :=
  Loop.invariant_run (fun l => P l.intake.coverage) h.step ms hl

end IsInvariant

/-! ### No directory is registered twice -/

/-- Each directory is registered under one spelling. -/
def IsDistinct (c : Coverage) : Prop := c.directories.Pairwise fun d d' => ¬d.Same d'

theorem isInvariant_isDistinct (policy : Backend.Policy) : IsInvariant policy IsDistinct where
  watch := fun {c dir} hc hfree => by
    have hfresh : ∀ d ∈ c.directories, ¬d.Same dir := fun d hd => not_same_of_mem hfree hd
    rw [Coverage.watch]
    split
    · exact hc
    · exact List.pairwise_append.mpr ⟨hc, List.pairwise_singleton _ _, by simpa using hfresh⟩
  unwatch := fun _ hc => List.Pairwise.filter _ hc
  record := fun _ hc => hc

/-- Whatever happens after the root was registered, no directory is registered twice. -/
theorem isDistinct_run (fs : FileSystem) (tally : Tally) (root : Path) (plan : Plan)
    (ms : List Move) :
    IsDistinct ((Loop.start plan
      (Coverage.registerRoot fs plan.scope plan.policy { tally } root).1).run plan
        ms).1.intake.coverage := by
  have hkept := isInvariant_isDistinct plan.policy
  exact hkept.run ms (hkept.registerRoot root List.Pairwise.nil)

end Coverage

end WorkspaceWatch
