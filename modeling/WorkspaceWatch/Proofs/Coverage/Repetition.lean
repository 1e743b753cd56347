import WorkspaceWatch.Proofs.Coverage.Interruption
import WorkspaceWatch.Proofs.Coverage.Exact

/-!
# Registering again

It is normal that a creation is told more than once. Then a walk goes through a tree that is
registered already, and it goes the same way as the walk before it: where a walk turns, and what it
finds there, is decided by the tree and by the directories that it has visited, through links too.
What
is registered decides only whether the watcher is asked.

So a walk through directories all of which are registered (`Coverage.walk_crosses`) finds what the
walk found that has registered them, and changes nothing. Hence registering what has appeared is
idempotent (`Coverage.registerCreated_idempotent`), and a creation that is told twice is reported
twice, with everything that is in the directory (`Intake.absorb_created_again`).
-/

namespace WorkspaceWatch

namespace Coverage

variable {fs : FileSystem} {scope : Scope} {policy policy' : Backend.Policy} {strict : Bool}
  {c c' : Coverage} {w w' : Walk} {dir start : Path} {waiting : List Path}
  {after : Walk × Option Refusal}

/-- What is registered stays registered for the rest of a walk. -/
theorem Walk.Runs.subset (hrun : Runs fs scope policy strict waiting w after) :
    w.coverage.directories ⊆ after.1.coverage.directories := by
  have hregister : ∀ {w₁ w₂ : Walk} {dir : Path} {refusal? : Option Refusal},
      (w₁.noted fs scope dir).register policy dir = (w₂, refusal?) →
      w.coverage.directories ⊆ w₁.coverage.directories →
      w.coverage.directories ⊆ w₂.coverage.directories :=
    fun {w₁ _ dir _} register hw =>
      List.Subset.trans hw (subset_register (w := w₁.noted fs scope dir) register)
  rcases hrun.keeps (Q := fun _ => True)
    (P := fun w' => w.coverage.directories ⊆ w'.coverage.directories) (fun _ _ => trivial)
    (fun _ _ register hw => hregister register hw) (fun _ _ hw => hw) (by simp)
    (List.Subset.refl _) with hw | ⟨w₁, dir, refusal, -, hw, register⟩
  · exact hw
  · exact hregister register hw

/-- The walk as it is if it goes through the coverage `c`, in which it has nothing to register. -/
def Walk.crossing (c : Coverage) (w : Walk) : Walk := { w with coverage := c, added := [] }

/-- A directory that is registered already is passed without regard to what the watcher says. -/
theorem Walk.register_crossing (policy' : Backend.Policy)
    (register : w.register policy dir = (w', none)) (hdir : c.isRegistered dir = true) :
    (w.crossing c).register policy' dir = (w'.crossing c, none) := by
  obtain ⟨hvisited, hfound⟩ := register_frame register
  rw [register_of_registered (w := w.crossing c) hdir, crossing, crossing, hvisited, hfound]

/-- If a walk was refused nothing, then another one from the same state goes the same way through a
coverage in which everything is registered that is registered after the first. -/
theorem Walk.Runs.crosses (hrun : Runs fs scope policy strict waiting w after)
    (hnone : after.2 = none)
    (hknown : ∀ p, after.1.coverage.isRegistered p = true → c.isRegistered p = true) :
    Runs fs scope policy' strict waiting (w.crossing c) (after.1.crossing c, none) := by
  induction hrun with
  | done => exact .done
  | @passed dir waiting w w' after turns rest ih =>
    cases turns with
    | known seen => exact .passed (.known seen) (ih hnone hknown)
    | unreadable new register list lenient =>
      have hdir := hknown dir (isRegistered_mono rest.subset (register_eq_none register).1)
      have register' := register_crossing policy' register hdir
      exact .passed (.unreadable new register' list lenient) (ih hnone hknown)
  | stopped => cases hnone
  | @entered dir waiting children w w' after turns rest ih =>
    cases turns with
    | entered new register list =>
      have hdir := hknown dir (isRegistered_mono rest.subset (register_eq_none register).1)
      have register' := register_crossing policy' register hdir
      exact .entered (.entered (w := w.crossing c) new register' list) (ih hnone hknown)

/-- **A walk through what is registered already** finds the same as the walk that has registered it,
whatever else is registered by then, and changes nothing. -/
theorem walk_crosses (hnone : (walk fs scope policy strict c start).2 = none)
    (hknown : ∀ p, (walk fs scope policy strict c start).1.coverage.isRegistered p = true →
      c'.isRegistered p = true) :
    walk fs scope policy' strict c' start =
      ((walk fs scope policy strict c start).1.crossing c', none) :=
  (runs_walk fs scope policy' strict c' start).unique
    ((runs_walk fs scope policy strict c start).crosses hnone hknown)

/-! ### What has appeared -/

/-- To register again what has appeared, when everything is registered that was registered for it,
changes nothing, and it gives the same entries in the same order. -/
theorem registerCreated_crosses (hnone : (walk fs scope policy false c dir).2 = none)
    (hknown : ∀ p, (c.registerCreated fs scope policy dir).1.isRegistered p = true →
      c'.isRegistered p = true) :
    c'.registerCreated fs scope policy' dir = (c', (c.registerCreated fs scope policy dir).2) := by
  have hwalk : walk fs scope policy' false c' dir =
      ((walk fs scope policy false c dir).1.crossing c', none) := by
    refine walk_crosses hnone fun p hp => hknown p ?_
    rwa [isRegistered, directories_registerCreated]
  rw [registerCreated, hwalk]
  rfl

/-- A watcher that refuses nothing does not stop a walk through what has appeared. -/
theorem walk_acceptAll_eq_none (fs : FileSystem) (scope : Scope) (c : Coverage) (dir : Path) :
    (walk fs scope Backend.acceptAll false c dir).2 = none := by
  obtain ⟨w, done, hwalk, -⟩ : ∃ w done, walk fs scope Backend.acceptAll false c dir = (w, none) ∧
      Explored fs scope c dir done [] w := explored_walk c dir nofun
  rw [hwalk]

/-- **Registering what has appeared is idempotent.** Say it was registered with a watcher that
refuses nothing, on any tree, whether links are followed or not, and whatever was registered before.
Registered again on the same tree, it leaves the coverage exactly as it is: no directory is added to
it, the watcher is asked for nothing, and nothing is counted. The answer is the same too, with the
same entries in the same order. What the watcher would say the second time makes no difference. -/
theorem registerCreated_idempotent (fs : FileSystem) (scope : Scope) (policy : Backend.Policy)
    (c : Coverage) (dir : Path) :
    (c.registerCreated fs scope Backend.acceptAll dir).1.registerCreated fs scope policy dir =
      c.registerCreated fs scope Backend.acceptAll dir :=
  registerCreated_crosses (walk_acceptAll_eq_none fs scope c dir) fun _ hp => hp

end Coverage

namespace Intake

open Coverage

variable {plan : Plan}

/-- **A creation that is told twice** is reported twice, with all that is in a directory, and it
changes nothing the second time but the number of changes. -/
theorem absorb_created_again (hpolicy : plan.policy = Backend.acceptAll) (fs : FileSystem)
    (c : Coverage) (p : Path) :
    let once := absorb plan fs c (.created p)
    absorb plan fs once.1 (.created p) =
      (once.1.record (if plan.scope.ignore.ignores p then .eventIgnored else .eventObserved),
        once.2) := by
  intro once
  by_cases hignored : plan.scope.ignore.ignores p = true
  · have honce : once = (c.record .eventIgnored, []) := absorb_of_ignores (.created p) hignored
    rw [absorb_of_ignores (.created p) hignored, if_pos hignored, honce]
  · have hshown : plan.scope.ignore.ignores p = false := by simpa using hignored
    have honce : once = _ := absorb_created hshown
    rw [absorb_created hshown, if_neg hignored]
    split
    · next henters =>
      rw [if_pos henters] at honce
      have hnone := walk_acceptAll_eq_none fs plan.scope (c.record .eventObserved) p
      rw [← hpolicy] at hnone
      have hknown : ∀ q, ((c.record .eventObserved).registerCreated fs plan.scope plan.policy
          p).1.isRegistered q = true → (once.1.record .eventObserved).isRegistered q = true := by
        rw [honce]
        exact fun _ hq => hq
      rw [registerCreated_crosses hnone hknown, honce]
    · next henters => rw [honce, if_neg henters]

end Intake

end WorkspaceWatch
