import WorkspaceWatch.Proofs.Loop.Run

/-!
# No change is lost

What can come of one change is said, case by case, by `Intake.Absorbs`. The changes that the loop
queues are announced by the notices it handles: `Intake.announced` says which ones, without regard
to what the loop does with them. Every one of them is then carried to the notifier once and in
order, is dropped when the loop stops, or is still pending; a handover adds nothing but its report
of files, which stands apart from the queued changes.

`Loop.accounts_run` states this for every stretch of every run, so that it can be read from the
start of the loop, from the moment at which the notifier has a batch, or from cancellation on.
-/

namespace WorkspaceWatch

namespace Intake

variable (plan : Plan) (fs : FileSystem)

/-- What can come of absorbing one change. -/
inductive Absorbs (c : Coverage) (change : Change) : Coverage × List Change → Prop
  /-- It is ignored. -/
  | ignored (hidden : plan.scope.ignore.ignores change.path = true) :
      Absorbs c change (c.record .eventIgnored, [])
  /-- A directory has appeared, and is registered with all that is in it. -/
  | appeared (shown : plan.scope.ignore.ignores change.path = false)
      (created : change.kind = .created) (enters : plan.scope.enters fs change.path = true) :
      Absorbs c change
        (((c.record .eventObserved).registerCreated fs plan.scope plan.policy change.path).1,
          change :: ((c.record .eventObserved).registerCreated fs plan.scope plan.policy
            change.path).2.map .created)
  /-- A registered directory is gone, and is forgotten with all that was in it. -/
  | vanished (shown : plan.scope.ignore.ignores change.path = false)
      (deleted : change.kind = .deleted) (registered : c.isRegistered change.path = true) :
      Absorbs c change (((c.record .eventObserved).unregister change.path).1, [change])
  /-- It is queued, and that is all. -/
  | queued (shown : plan.scope.ignore.ignores change.path = false)
      (created : change.kind = .created → plan.scope.enters fs change.path = false)
      (deleted : change.kind = .deleted → c.isRegistered change.path = false) :
      Absorbs c change (c.record .eventObserved, [change])

theorem absorbs_absorb (c : Coverage) (change : Change) :
    Absorbs plan fs c change (absorb plan fs c change) := by
  obtain ⟨path, kind⟩ := change
  rw [absorb]
  by_cases hignored : plan.scope.ignore.ignores path = true
  · rw [if_pos hignored]
    exact .ignored hignored
  · rw [if_neg hignored]
    have hshown : plan.scope.ignore.ignores path = false := by simpa using hignored
    cases kind with
    | created =>
      dsimp only
      split
      · next henters => exact .appeared hshown rfl henters
      · next henters => exact .queued hshown (fun _ => by simpa using henters) nofun
    | deleted =>
      dsimp only
      split
      · next hregistered => exact .vanished hshown rfl hregistered
      · next hregistered => exact .queued hshown nofun fun _ => Bool.not_eq_true _ ▸ hregistered
    | changed => exact .queued hshown nofun nofun

/-- What is queued for one change: nothing if it is ignored, else the change itself and, behind a
directory that was created, the entries which its registration finds in it. -/
def announced (c : Coverage) (change : Change) : List Change :=
  if plan.scope.ignore.ignores change.path then []
  else if change.kind = .created ∧ plan.scope.enters fs change.path then
    change ::
      ((c.record .eventObserved).registerCreated fs plan.scope plan.policy change.path).2.map
        .created
  else [change]

/-- What is queued for changes in their order, each met by the coverage that the ones before it
have left. -/
def announcedAll (c : Coverage) : List Change → List Change
  | [] => []
  | change :: rest => announced plan fs c change ++ announcedAll (absorb plan fs c change).1 rest

/-- What is queued for a notice. -/
def announcement (now : Nat) (i : Intake) : Notice → List Change
  | .fault _ => []
  | .signal s =>
    announcedAll plan fs (if s.rescan then i.noteLoss plan now else i).coverage (s.changes fs)

variable {plan fs} {c : Coverage} {i : Intake} {now : Nat}

theorem absorb_queued (change : Change) :
    (absorb plan fs c change).2 = announced plan fs c change := by
  obtain ⟨path, kind⟩ := change
  unfold absorb announced
  split
  · rfl
  · cases kind with
    | created => by_cases h : plan.scope.enters fs path = true <;> simp [h]
    | deleted => by_cases h : (c.record .eventObserved).isRegistered path = true <;> simp [h]
    | changed => simp

theorem absorbAll_queued (changes : List Change) :
    (absorbAll plan fs c changes).2 = announcedAll plan fs c changes := by
  induction changes generalizing c with
  | nil => rfl
  | cons change rest ih =>
    rw [absorbAll, announcedAll, ← ih, ← absorb_queued]

/-- Handling a notice queues what the notice announces. -/
theorem handle_queued (notice : Notice) :
    (i.handle plan fs now notice).2 = i.announcement plan fs now notice := by
  cases notice with
  | fault text => rfl
  | signal s => exact absorbAll_queued _

/-- Handling a notice appends what it queues to what is pending. -/
theorem pending_handle (notice : Notice) :
    (i.handle plan fs now notice).1.burst.pending =
      i.burst.pending ++ (i.handle plan fs now notice).2 := by
  cases notice with
  | fault text => simp [handle]
  | signal s =>
    have hloss : (if s.rescan then i.noteLoss plan now else i).burst.pending = i.burst.pending := by
      split
      · unfold noteLoss
        dsimp only
        split <;> rfl
      · rfl
    simp only [handle, Burst.pending_pushAll]
    rw [hloss]

/-- The report of files that a flush appends: every file in the registered directories if the watch
is dirty, and nothing otherwise. -/
def report (plan : Plan) (fs : FileSystem) (i : Intake) : List Change :=
  if i.dirty then (i.coverage.files fs plan.scope).map .changed else []

/-- **A flush** empties the burst, makes the watch clean, and hands over what was pending and the
report, unless there is neither. -/
theorem flush_eq :
    i.flush plan fs now =
      ({ i with burst := i.burst.cleared, dirty := false },
        if i.burst.pending ++ i.report plan fs = [] then none
        else some ⟨i.burst.pending, i.report plan fs, now⟩) := by
  have hreport :
      (if i.dirty then (i.coverage.files fs plan.scope).map .changed else []) = i.report plan fs :=
    rfl
  simp only [flush, hreport]
  split <;> rfl

/-- A flush without a handover had nothing pending. -/
theorem pending_of_flush_none {i' : Intake} (h : i.flush plan fs now = (i', none)) :
    i.burst.pending = [] ∧ i'.burst.pending = [] := by
  rw [flush_eq, Prod.mk.injEq] at h
  obtain ⟨rfl, h⟩ := h
  split at h
  · next hnil => exact ⟨(List.append_eq_nil_iff.mp hnil).1, rfl⟩
  · cases h

/-- A flush hands over all that is pending and then the report, and never nothing. -/
theorem flush_some {i' : Intake} {h : Handover} (hflush : i.flush plan fs now = (i', some h)) :
    h.queued = i.burst.pending ∧ h.reported = i.report plan fs ∧ h.batch.changes ≠ [] ∧
      i'.burst.pending = [] := by
  rw [flush_eq, Prod.mk.injEq] at hflush
  obtain ⟨rfl, hflush⟩ := hflush
  split at hflush
  · cases hflush
  · next hne =>
    cases hflush
    exact ⟨rfl, rfl, hne, rfl⟩

@[simp] theorem pending_conclude (accepted : Bool) :
    (i.conclude plan accepted).burst.pending = i.burst.pending := by
  cases accepted <;> rfl

end Intake

namespace Loop

variable {plan : Plan} {l : Loop} {m : Move} {after : Loop × List Record}

/-- What a move queues: if the loop waits and is not cancelled, a turn takes the first notice of the
queue and queues what it announces. -/
def announcement (plan : Plan) (l : Loop) : Move → List Change
  | .outside _ => []
  | .turn fs =>
    match l.phase, l.cancelled, l.queue with
    | .waiting, false, notice :: _ => l.intake.announcement plan fs l.clock notice
    | _, _, _ => []

/-- What a run queues. -/
def announced (plan : Plan) (l : Loop) : List Move → List Change
  | [] => []
  | m :: ms => l.announcement plan m ++ announced plan (l.move plan m).1 ms

/-- The handover that the notifier has not answered. -/
def inFlight (l : Loop) : List Handover :=
  match l.phase with
  | .delivering handover => [handover]
  | _ => []

/-! ### What one step does -/

/-- A step queues what it announces. -/
theorem Step.gathered (h : Step plan l m after) :
    after.2.flatMap Record.gathered = l.announcement plan m := by
  cases h with
  | came | concluded => rfl
  | finished phase | busy phase => simp [announcement, phase]
  | idle phase _ queue | flushed phase _ queue => simp [announcement, phase, queue]
  | handled phase cancelled queue =>
    simp [announcement, phase, cancelled, queue, Record.gathered, Intake.handle_queued]
  | handed phase _ queue => simp [announcement, phase, queue, Record.gathered]
  | stopped phase ended =>
    rcases ended with hc | ⟨hq, -⟩
    · simp [announcement, stop, phase, hc, Record.gathered]
    · simp [announcement, stop, phase, hq, Record.gathered]
  | abandoned phase => simp [announcement, stop, phase, Record.gathered]

/-- What is pending before a step and what the step queues is what it hands over, what it drops and
what is pending afterwards. -/
theorem Step.balanced (h : Step plan l m after) :
    l.pending ++ after.2.flatMap Record.gathered =
      after.2.flatMap Record.carried ++ (after.2.flatMap Record.discarded ++ after.1.pending) := by
  cases h with
  | came intake => simp [pending, intake]
  | finished | busy | idle => simp
  | handled =>
    simpa [pending, Record.gathered, Record.carried, Record.discarded] using
      (Intake.pending_handle _).symm
  | flushed _ _ _ _ flush =>
    obtain ⟨hbefore, hafter⟩ := Intake.pending_of_flush_none flush
    simp [pending, hbefore, hafter]
  | handed _ _ _ _ flush =>
    obtain ⟨hqueued, -, -, hafter⟩ := Intake.flush_some flush
    simp [pending, Record.gathered, Record.carried, Record.discarded, hqueued, hafter]
  | concluded =>
    simp [pending, Record.gathered, Record.carried, Record.discarded]
  | stopped =>
    simp [pending, stop, Burst.cleared, Burst.empty, Record.gathered, Record.carried,
      Record.discarded]
  | abandoned =>
    simp [pending, stop, Burst.cleared, Burst.empty, Record.gathered, Record.carried,
      Record.discarded]

/-- A step that drops something is the last one. -/
theorem Step.discarded (h : Step plan l m after) :
    after.2.flatMap Record.discarded = [] ∨ after.1.phase = .stopped := by
  cases h with
  | stopped | abandoned => exact .inr rfl
  | _ => exact .inl rfl

/-- The notices that have come are handled in their order, up to the end of the loop. -/
theorem Step.notices (h : Step plan l m after) :
    l.queue ++ l.admitted m = after.2.filterMap Record.notice? ++ after.1.queue ∨
      after.1.phase = .stopped ∧ after.2.filterMap Record.notice? = [] := by
  cases h with
  | came _ _ queue => exact .inl (by simpa using queue.symm)
  | handled _ _ queue => exact .inl (by simp [admitted, queue, Record.notice?])
  | stopped | abandoned => exact .inr ⟨rfl, rfl⟩
  | finished | busy | idle | flushed | handed | concluded =>
    exact .inl (by simp [admitted, Record.notice?])

/-- Every batch that was handed over is answered, abandoned or still with the notifier. -/
theorem Step.inFlight (h : Step plan l m after) :
    l.inFlight ++ after.2.filterMap Record.handover? =
      after.2.filterMap Record.ended? ++ after.1.inFlight := by
  cases h with
  | came _ phase => simp [Loop.inFlight, phase]
  | finished | busy | idle => simp
  | handled phase | flushed phase | handed phase | concluded phase | stopped phase
  | abandoned phase =>
    simp [Loop.inFlight, stop, phase, List.filterMap_cons, Record.handover?, Record.ended?]

/-- While the notifier has a batch nothing is pending. -/
theorem Step.pending_eq_nil (h : Step plan l m after)
    (hl : l.inFlight ≠ [] → l.pending = []) (hafter : after.1.inFlight ≠ []) :
    after.1.pending = [] := by
  cases h with
  | came intake phase =>
    rw [pending, intake]
    exact hl (by simpa [Loop.inFlight, phase] using hafter)
  | finished | busy | idle => exact hl hafter
  | handled phase | flushed phase => simp [Loop.inFlight, phase] at hafter
  | handed _ _ _ _ flush => exact (Intake.flush_some flush).2.2.2
  | concluded => simp [Loop.inFlight] at hafter
  | stopped | abandoned => simp [Loop.inFlight, stop] at hafter

/-- Once the loop is cancelled it only comes to its end, and counts nothing. -/
theorem Step.of_cancelled (h : Step plan l m after) (hc : l.cancelled = true) :
    after.1.cancelled = true ∧ (∀ r ∈ after.2, r.IsLast) ∧
      after.1.intake.coverage = l.intake.coverage := by
  cases h with
  | came intake _ _ cancelled => exact ⟨cancelled hc, by simp, by rw [intake]⟩
  | finished => exact ⟨hc, by simp, rfl⟩
  | stopped => exact ⟨hc, by simp [stop, Record.IsLast], rfl⟩
  | abandoned => exact ⟨hc, by simp [stop, Record.IsLast], rfl⟩
  | busy _ cancelled | idle _ cancelled | handled _ cancelled | flushed _ cancelled
  | handed _ cancelled | concluded _ cancelled =>
    rw [hc] at cancelled
    cases cancelled

/-! ### What a run does -/

theorem run_gathered (ms : List Move) :
    (l.run plan ms).2.flatMap Record.gathered = l.announced plan ms := by
  induction ms generalizing l with
  | nil => rfl
  | cons m ms ih =>
    rw [run_cons, announced, List.flatMap_append, ih, (step_move plan l m).gathered]

/-- **Conservation.** What is pending and what a run queues is what it hands over, then what it
drops, then what is pending in the end. -/
theorem run_balanced (ms : List Move) :
    l.pending ++ l.announced plan ms =
      (l.run plan ms).2.flatMap Record.carried ++
        ((l.run plan ms).2.flatMap Record.discarded ++ (l.run plan ms).1.pending) := by
  induction ms generalizing l with
  | nil => simp [announced]
  | cons m ms ih =>
    have hstep := (step_move plan l m).balanced
    rw [(step_move plan l m).gathered] at hstep
    rw [announced, ← List.append_assoc, hstep, run_cons, List.flatMap_append, List.flatMap_append]
    -- Nothing is handed over behind what is dropped, since the loop has stopped by then.
    rcases (step_move plan l m).discarded with hnone | hstopped
    · simp only [hnone, List.nil_append, List.append_assoc]
      rw [ih]
    · obtain ⟨-, -, hrecords⟩ := run_of_stopped plan hstopped ms
      have hih := ih (l := (l.move plan m).1)
      rw [hrecords] at hih ⊢
      simp only [List.flatMap_nil, List.nil_append, List.append_nil, List.append_assoc] at hih ⊢
      rw [hih]

/-- The notices that have come are handled in their order; those left over are in the queue, or the
loop has stopped. -/
theorem run_notices (ms : List Move) :
    ∃ left, l.queue ++ l.arrivals plan ms = (l.run plan ms).2.filterMap Record.notice? ++ left ∧
      (left = (l.run plan ms).1.queue ∨ (l.run plan ms).1.phase = .stopped) := by
  induction ms generalizing l with
  | nil => exact ⟨l.queue, by simp [arrivals], .inl rfl⟩
  | cons m ms ih =>
    rw [run_cons, arrivals, List.filterMap_append, ← List.append_assoc]
    rcases (step_move plan l m).notices with hstep | ⟨hstopped, hnone⟩
    · obtain ⟨left, heq, hleft⟩ := ih (l := (l.move plan m).1)
      exact ⟨left, by rw [hstep, List.append_assoc, heq, List.append_assoc], hleft⟩
    · have hrun := run_of_stopped plan hstopped ms
      refine ⟨l.queue ++ l.admitted m ++ (l.move plan m).1.arrivals plan ms, ?_, .inr ?_⟩
      · simp [hnone, hrun.2.2]
      · exact hrun.1

theorem run_inFlight (ms : List Move) :
    l.inFlight ++ (l.run plan ms).2.filterMap Record.handover? =
      (l.run plan ms).2.filterMap Record.ended? ++ (l.run plan ms).1.inFlight := by
  induction ms generalizing l with
  | nil => simp
  | cons m ms ih =>
    rw [run_cons, List.filterMap_append, List.filterMap_append, ← List.append_assoc,
      (step_move plan l m).inFlight, List.append_assoc, ih, List.append_assoc]

/-- A cancelled loop only comes to its end, and counts nothing. -/
theorem run_of_cancelled (plan : Plan) (ms : List Move) (hc : l.cancelled = true) :
    (∀ r ∈ (l.run plan ms).2, r.IsLast) ∧
      (l.run plan ms).1.intake.coverage = l.intake.coverage := by
  induction ms generalizing l with
  | nil => exact ⟨by simp, rfl⟩
  | cons m ms ih =>
    obtain ⟨hc', hlast, hcoverage⟩ := (step_move plan l m).of_cancelled hc
    obtain ⟨hlast', hcoverage'⟩ := ih hc'
    refine ⟨fun r hr => ?_, hcoverage'.trans hcoverage⟩
    rcases List.mem_append.mp hr with hr | hr
    · exact hlast r hr
    · exact hlast' r hr

/-- While the notifier has a batch, the first thing that is recorded is how that ends. -/
theorem run_of_delivering {h : Handover} (ms : List Move) (hphase : l.phase = .delivering h) :
    (l.run plan ms).2 = [] ∨
      ∃ r rest, (l.run plan ms).2 = r :: rest ∧ r.ended? = some h := by
  induction ms generalizing l with
  | nil => exact .inl rfl
  | cons m ms ih =>
    rw [run_cons]
    have hstep := step_move plan l m
    generalize l.move plan m = after at hstep ⊢
    cases hstep with
    | came _ phase => simpa using ih (phase.trans hphase)
    | busy => simpa using ih hphase
    | concluded phase | abandoned phase =>
      obtain rfl : h = _ := Phase.delivering.inj (hphase.symm.trans phase)
      exact .inr ⟨_, _, rfl, rfl⟩
    | finished phase | idle phase | handled phase | flushed phase | handed phase | stopped phase =>
      rw [hphase] at phase
      cases phase

/-- What a stretch of a run, from the loop `l` on, does with changes. -/
structure Accounts (plan : Plan) (l : Loop) (ms : List Move) : Prop where
  /-- The queued changes of all batches in their order, then what is dropped at the end or still
  pending, are what was pending before and then, in order, everything that was queued. -/
  balanced : l.pending ++ l.announced plan ms =
    (l.run plan ms).2.flatMap Record.carried ++
      ((l.run plan ms).2.flatMap Record.discarded ++ (l.run plan ms).1.pending)
  /-- Handling a notice queues what the notice announces. -/
  gathered : (l.run plan ms).2.flatMap Record.gathered = l.announced plan ms
  /-- Notices are handled in the order of their arrival, and none is passed over. -/
  ordered : ∃ left, l.queue ++ l.arrivals plan ms =
      (l.run plan ms).2.filterMap Record.notice? ++ left ∧
    (left = (l.run plan ms).1.queue ∨ (l.run plan ms).1.phase = .stopped)
  /-- Every batch is answered, abandoned or still with the notifier. -/
  answered : l.inFlight ++ (l.run plan ms).2.filterMap Record.handover? =
    (l.run plan ms).2.filterMap Record.ended? ++ (l.run plan ms).1.inFlight
  /-- A batch is what was pending and then the report of files, and it is never empty. -/
  batch : ∀ fs h, .handed h ∈ (l.move plan (.turn fs)).2 →
    h.batch.changes = l.pending ++ l.intake.report plan fs ∧ h.queued = l.pending ∧
      h.batch.changes ≠ []
  /-- While the notifier has a batch nothing is pending and nothing is handled before it ends: what
  comes meanwhile goes into later batches. -/
  later : ∀ h, l.phase = .delivering h → l.pending = [] ∧
    ((l.run plan ms).2 = [] ∨ ∃ r rest, (l.run plan ms).2 = r :: rest ∧ r.ended? = some h)
  /-- After cancellation the loop only comes to its end, and counts nothing. -/
  cancelled : l.cancelled = true → (∀ r ∈ (l.run plan ms).2, r.IsLast) ∧
    (l.run plan ms).1.intake.coverage.tally = l.intake.coverage.tally

theorem move_batch {fs : FileSystem} {h : Handover}
    (hmem : .handed h ∈ (l.move plan (.turn fs)).2) :
    h.batch.changes = l.pending ++ l.intake.report plan fs ∧ h.queued = l.pending ∧
      h.batch.changes ≠ [] := by
  have hstep := step_move plan l (.turn fs)
  generalize l.move plan (.turn fs) = after at hstep hmem
  cases hstep with
  | handed _ _ _ _ flush =>
    cases List.mem_singleton.mp hmem
    obtain ⟨hqueued, hreported, hne, -⟩ := Intake.flush_some flush
    exact ⟨by rw [Handover.batch, Batch.ofDisk, hqueued, hreported, pending], hqueued, hne⟩
  | _ => simp [stop] at hmem

/-- **No change is lost, duplicated or reordered**: every stretch of every run of the loop accounts
for all changes. -/
theorem accounts_run (plan : Plan) (coverage : Coverage) (before ms : List Move) :
    Accounts plan ((start plan coverage).run plan before).1 ms where
  balanced := run_balanced ms
  gathered := run_gathered ms
  ordered := run_notices ms
  answered := run_inFlight ms
  batch := fun _ _ => move_batch
  later := fun h hphase => by
    refine ⟨?_, run_of_delivering ms hphase⟩
    exact invariant_run (fun l => l.inFlight ≠ [] → l.pending = [])
      (fun hstep => hstep.pending_eq_nil) before (fun hne => absurd rfl hne)
      (by simp [inFlight, hphase])
  cancelled := fun hc => by
    obtain ⟨hlast, hcoverage⟩ := run_of_cancelled plan ms hc
    exact ⟨hlast, by rw [hcoverage]⟩

end Loop

end WorkspaceWatch
