import Mathlib.Logic.Relation
import WorkspaceWatch.Proofs.Coverage.Exact
import WorkspaceWatch.Proofs.Loop.Run
import WorkspaceWatch.Watch.Stepwise

/-!
# Step by step

While the file system and the time stand still, the steps into which a turn was taken apart come to
what the turn does at one stroke: those of a walk to what `Coverage.walk` leaves
(`Coverage.Walk.Stage.ends_walk`), those of the handling of a notice to what `Intake.handle` leaves
(`Handling.leads_begin`), and all of them to what `Loop.turn` leaves
(`Work.exists_run_eq_turn`).
-/

namespace WorkspaceWatch

namespace Coverage

variable {fs : FileSystem} {scope : Scope} {policy : Backend.Policy} {strict : Bool} {w : Walk}
  {waiting : List Path} {dir : Path} {after : Walk × Option Refusal}

/-! ### Walks -/

/-- The walk ends with `after` if the file system stays as it is. -/
inductive Walk.Stage.Ends (fs : FileSystem) (scope : Scope) (policy : Backend.Policy)
    (strict : Bool) : Stage → Walk × Option Refusal → Prop
  | last {s : Stage} {after : Walk × Option Refusal}
      (step : s.step fs scope policy strict = .inr after) : Ends fs scope policy strict s after
  | next {s s' : Stage} {after : Walk × Option Refusal}
      (step : s.step fs scope policy strict = .inl s')
      (rest : Ends fs scope policy strict s' after) : Ends fs scope policy strict s after

namespace Walk.Stage

/-- One entry after the other is looked at. -/
theorem Ends.examined {names : List Name}
    (h : Ends fs scope policy strict
      (.turning { w with found := w.found ++ scope.kept dir names }
        (((scope.kept dir names).filter (scope.enters fs)).reverse ++ waiting)) after) :
    Ends fs scope policy strict (.examining w waiting dir names) after := by
  induction names generalizing w waiting with
  | nil =>
    rw [Scope.kept, List.map_nil, List.filter_nil, List.append_nil] at h
    exact .next rfl h
  | cons name names ih =>
    have hkept : scope.kept dir (name :: names) =
        if scope.ignore.ignores (dir.child name) then scope.kept dir names
        else dir.child name :: scope.kept dir names := by
      rw [Scope.kept, List.map_cons, List.filter_cons]
      cases scope.ignore.ignores (dir.child name) <;> rfl
    by_cases hignored : scope.ignore.ignores (dir.child name) = true
    · rw [hkept, if_pos hignored] at h
      exact .next (by rw [step, if_pos hignored]) (ih h)
    · rw [hkept, if_neg hignored] at h
      refine .next (by rw [step, if_neg hignored]) (ih ?_)
      by_cases henters : scope.enters fs (dir.child name) = true <;> simpa [henters] using h

/-- Directory by directory, the walk does what it does at one stroke. -/
theorem ends_of_runs (h : Walk.Runs fs scope policy strict waiting w after) :
    Ends fs scope policy strict (.turning w waiting) after := by
  induction h with
  | done => exact .last rfl
  | passed turns _ ih =>
    cases turns with
    | known seen => exact .next (by rw [step, approach, if_pos seen]) ih
    | unreadable new register list lenient =>
      refine .next (by rw [step, approach, new, if_neg Bool.false_ne_true, register]) ?_
      exact .next (by rw [step, list, lenient]; rfl) ih
  | stopped turns =>
    cases turns with
    | refused new register =>
      exact .last (by rw [step, approach, new, if_neg Bool.false_ne_true, register])
    | ended new register list exacting =>
      refine .next (by rw [step, approach, new, if_neg Bool.false_ne_true, register]) ?_
      exact .last (by rw [step, list, exacting]; rfl)
  | entered turns _ ih =>
    cases turns with
    | entered new register list =>
      refine .next (by rw [step, approach, new, if_neg Bool.false_ne_true, register]) ?_
      exact .next (by rw [step, list]) ih.examined

theorem ends_walk (fs : FileSystem) (scope : Scope) (policy : Backend.Policy) (strict : Bool)
    (c : Coverage) (start : Path) : Ends fs scope policy strict
      (.turning { coverage := c } [start]) (Coverage.walk fs scope policy strict c start) :=
  ends_of_runs (runs_walk fs scope policy strict c start)

end Walk.Stage

end Coverage

namespace Handling

variable {plan : Plan} {fs : FileSystem} {now : Nat} {i : Intake} {h : Handling}
  {change : Change}

/-! ### Handling a notice -/

/-- Steps lead from one state of the handling to another if the file system and the time stand
still. -/
def Leads (plan : Plan) (fs : FileSystem) (now : Nat) :
    Intake × Handling → Intake × Handling → Prop :=
  Relation.ReflTransGen fun s s' => s.2.step plan fs now s.1 = some s'

/-- A walk leads to the changes that are queued for the directory. -/
theorem leads_errand {stage : Coverage.Walk.Stage} {after : Coverage.Walk × Option Refusal}
    (hends : stage.Ends fs plan.scope plan.policy false after) :
    Leads plan fs now (i, { h with errand? := some (change, stage) })
      (settle now i h (after.1.account after.2) (change :: after.1.found.map .created)) := by
  induction hends with
  | last hstep => exact .single (by simp only [step, hstep]; rfl)
  | next hstep _ ih => exact .head (by simp only [step, hstep]) ih

theorem leads_absorb {changes : List Change} (herrand : h.errand? = none)
    (hchanges : h.changes = change :: changes) :
    Leads plan fs now (i, h) (settle now i { h with changes }
      (Intake.absorb plan fs i.coverage change).1 (Intake.absorb plan fs i.coverage change).2) := by
  by_cases happeared : plan.scope.ignore.ignores change.path = false ∧ change.kind = .created ∧
      plan.scope.enters fs change.path = true
  · obtain ⟨path, kind⟩ := change
    obtain ⟨hshown, hcreated, henters⟩ := happeared
    cases hcreated
    have hends := Coverage.Walk.Stage.ends_walk fs plan.scope plan.policy false
      (i.coverage.record .eventObserved) path
    rw [show Intake.absorb plan fs i.coverage ⟨path, .created⟩ = _ from
      Intake.absorb_created hshown, if_pos henters]
    refine .head ?_ (leads_errand (h := { h with changes }) hends)
    simp only [step, herrand, hchanges]
    rw [if_pos ⟨hshown, trivial, henters⟩]
    rfl
  · refine .single ?_
    simp only [step, herrand, hchanges, if_neg happeared]

/-- Changes are absorbed in their order. -/
theorem leads_absorbAll (herrand : h.errand? = none) :
    Leads plan fs now (i, h) (settle now i { h with changes := [] }
      (Intake.absorbAll plan fs i.coverage h.changes).1
      (Intake.absorbAll plan fs i.coverage h.changes).2) := by
  obtain ⟨notice, time, changes, errand?, queued⟩ := h
  cases herrand
  induction changes generalizing i queued with
  | nil =>
    rw [Intake.absorbAll, settle]
    dsimp only
    rw [List.append_nil]
    exact .refl
  | cons change changes ih =>
    refine (leads_absorb rfl rfl).trans ((ih _).trans ?_)
    simp only [settle, Intake.absorbAll, Burst.pushAll, List.foldl_append, List.append_assoc]
    exact .refl

/-- What there is to do for a notice leads to what its handling at one stroke leaves. -/
theorem leads_begin (plan : Plan) (fs : FileSystem) (now : Nat) (i : Intake) (notice : Notice) :
    ∃ h, Leads plan fs now (begin plan fs now i notice) ((i.handle plan fs now notice).1, h) ∧
      h.notice = notice ∧ h.time = now ∧ h.queued = (i.handle plan fs now notice).2 ∧
      h.step plan fs now (i.handle plan fs now notice).1 = none := by
  cases notice with
  | fault text => exact ⟨_, .refl, rfl, rfl, rfl, rfl⟩
  | signal s => exact ⟨_, leads_absorbAll rfl, rfl, rfl, rfl, rfl⟩

end Handling

/-! ### Turns -/

namespace Work

variable {plan : Plan} {fs : FileSystem} {w : Work}

/-- What one turn does. -/
inductive Turns (plan : Plan) (fs : FileSystem) (w : Work) : Work × List Record → Prop
  /-- It takes a step with the notice in hand. -/
  | stepped {h h' : Handling} {i : Intake} (handling : w.handling? = some h)
      (step : h.step plan fs w.loop.clock w.loop.intake = some (i, h')) :
      Turns plan fs w ({ loop := { w.loop with intake := i }, handling? := some h' }, [])
  /-- It has done with this notice. -/
  | finished {h : Handling} (handling : w.handling? = some h)
      (step : h.step plan fs w.loop.clock w.loop.intake = none) :
      Turns plan fs w ({ loop := w.loop }, [.handled h.notice h.queued h.time])
  /-- It begins with the next notice. -/
  | begun {notice : Notice} {rest : List Notice} (handling : w.handling? = none)
      (queue : w.loop.queue = notice :: rest) :
      Turns plan fs w
        ({ loop :=
            { w.loop with
              intake := (Handling.begin plan fs w.loop.clock w.loop.intake notice).1
              queue := rest }
           handling? := some (Handling.begin plan fs w.loop.clock w.loop.intake notice).2 }, [])
  /-- It has to do with no notice. -/
  | other {l : Loop} {records : List Record} (handling : w.handling? = none)
      (handles : ¬(w.loop.phase = .waiting ∧ w.loop.cancelled = false ∧ w.loop.queue ≠ []))
      (step : Loop.Step plan w.loop (.turn fs) (l, records)) :
      Turns plan fs w ({ loop := l }, records)

theorem turns_of_turn {after : Work × List Record} (h : w.turn plan fs = some after) :
    w.Turns plan fs after := by
  rw [turn] at h
  cases hhandling : w.handling? with
  | some handling =>
    rw [hhandling] at h
    dsimp only at h
    split at h <;> cases h
    · next hstep => exact .stepped hhandling hstep
    · next hstep => exact .finished hhandling hstep
  | none =>
    rw [hhandling] at h
    dsimp only at h
    split at h
    · next hqueue =>
      cases h
      exact .begun hhandling hqueue
    · next hother =>
      obtain ⟨⟨l, records⟩, hturn, rfl⟩ := Option.map_eq_some_iff.mp h
      have hstep := Loop.step_move plan w.loop (.turn fs)
      rw [Loop.move, hturn] at hstep
      refine .other hhandling ?_ hstep
      rintro ⟨hphase, hcancelled, hne⟩
      obtain ⟨notice, queue, hqueue⟩ := List.exists_cons_of_ne_nil hne
      exact hother notice queue hphase hcancelled hqueue

/-- So many turns in a row, with the records of what was done, while the file system and the time
stand still and nothing comes from outside. -/
def run (plan : Plan) (fs : FileSystem) : Nat → Work → Work × List Record
  | 0, w => (w, [])
  | n + 1, w =>
    match w.turn plan fs with
    | none => (w, [])
    | some (w, records) => ((run plan fs n w).1, records ++ (run plan fs n w).2)

theorem run_succ {w' : Work} {records : List Record} (h : w.turn plan fs = some (w', records))
    (n : Nat) : w.run plan fs (n + 1) =
      ((w'.run plan fs n).1, records ++ (w'.run plan fs n).2) := by
  rw [run, h]

/-- The steps of a handling are turns in which nothing is recorded. -/
theorem exists_run_of_leads {l : Loop} {s s' : Intake × Handling} {after : Work × List Record}
    (hleads : Handling.Leads plan fs l.clock s s')
    (h : ∃ n, run plan fs n { loop := { l with intake := s'.1 }, handling? := some s'.2 } =
      after) :
    ∃ n, run plan fs n { loop := { l with intake := s.1 }, handling? := some s.2 } = after := by
  induction hleads using Relation.ReflTransGen.head_induction_on with
  | refl => exact h
  | @head s s'' hstep _ ih =>
    have hturn : turn plan fs { loop := { l with intake := s.1 }, handling? := some s.2 } =
        some ({ loop := { l with intake := s''.1 }, handling? := some s''.2 }, []) := by
      simp only [turn, hstep]
    obtain ⟨n, rfl⟩ := ih
    exact ⟨n + 1, run_succ hturn n⟩

/-- **A turn is what its steps come to.** -/
theorem exists_run_eq_turn {l l' : Loop} {records : List Record}
    (h : l.turn plan fs = some (l', records)) :
    ∃ n, run plan fs n { loop := l } = ({ loop := l' }, records) := by
  by_cases hhandles : l.phase = .waiting ∧ l.cancelled = false ∧ l.queue ≠ []
  · obtain ⟨i, notices, closed, cancelled, phase, now⟩ := l
    obtain ⟨rfl, rfl, hne⟩ := hhandles
    obtain ⟨notice, queue, rfl⟩ := List.exists_cons_of_ne_nil hne
    obtain ⟨done, hleads, hnotice, htime, hqueued, hlast⟩ :=
      Handling.leads_begin plan fs now i notice
    cases h
    let after : Loop := { intake := (i.handle plan fs now notice).1, queue, closed, clock := now }
    have hend : turn plan fs { loop := after, handling? := some done } =
        some ({ loop := after }, [.handled notice (i.handle plan fs now notice).2 now]) := by
      simp only [turn, after, hlast, hnotice, hqueued, htime]
    obtain ⟨n, hn⟩ := exists_run_of_leads (l := after) hleads ⟨1, run_succ hend 0⟩
    have hbegun : turn plan fs
          { loop := { intake := i, queue := notice :: queue, closed, clock := now } } =
        some ({ loop := { after with intake := (Handling.begin plan fs now i notice).1 }
                handling? := some (Handling.begin plan fs now i notice).2 }, []) := rfl
    exact ⟨n + 1, (run_succ hbegun n).trans (by rw [hn, List.nil_append, run]; rfl)⟩
  · have hturn : turn plan fs { loop := l } = some ({ loop := l' }, records) := by
      simp only [turn]
      split
      · next hphase hcancelled hqueue =>
        exact absurd ⟨hphase, hcancelled, by rw [hqueue]; exact List.cons_ne_nil _ _⟩ hhandles
      · rw [h]
        rfl
    exact ⟨1, (run_succ hturn 0).trans (by rw [run, List.append_nil])⟩

end Work

end WorkspaceWatch
