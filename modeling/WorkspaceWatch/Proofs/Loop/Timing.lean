import WorkspaceWatch.Proofs.Loop.Reconvergence

/-!
# The timer of the burst

The deadline, the pending changes and the mark of a dirty watch are set and taken away by different
hands: a notice stirs the burst, a flush clears it and takes the mark away, and a rejection sets the
mark and no deadline. What holds them together is `Intake.IsTimed`: whatever is pending has a
deadline, and there is no deadline unless something is pending or the watch is dirty. An answer of
the notifier respects that only because no deadline is set while the notifier has a batch; so the
invariant of the loop, `Loop.IsTimed`, says as well that the timer runs only while the loop waits.

`Loop.timing_run` says this of every run, and when the timer was set.

* Nothing that is pending is stranded: once the deadline has passed, the next turn that finds no
  notice hands it over (`Loop.IsTimed.handed`).
* The timer does not run for nothing: if a burst closes and there is nothing to hand over, then a
  report was due and there is no file (`Loop.IsTimed.dirty_of_lapses`).
* A report after a rejection has no timer and lingers until something stirs the burst; it is the
  only thing that waits without one (`Loop.lingers_run`).
-/

namespace WorkspaceWatch

variable {plan : Plan} {fs : FileSystem} {now : Nat}

namespace Intake

variable {i : Intake}

/-- What is pending has a deadline, and there is a deadline only for what is pending or for a
report. -/
structure IsTimed (i : Intake) : Prop where
  pending : i.burst.pending ≠ [] → ∃ d, i.burst.deadline? = some d
  deadline : ∀ {d}, i.burst.deadline? = some d → i.burst.pending ≠ [] ∨ i.dirty = true

theorem isTimed_of_cleared {b : Burst} (h : i.burst = b.cleared) : i.IsTimed where
  pending := fun hpending => absurd (by rw [h]; rfl) hpending
  deadline := fun hd => by
    rw [h] at hd
    cases hd

theorem IsTimed.handle (hi : i.IsTimed) (notice : Notice) :
    (i.handle plan fs now notice).1.IsTimed := by
  by_cases hstirs : notice.stirs plan (i.handle plan fs now notice).2 = true
  · have hdeadline : (i.handle plan fs now notice).1.burst.deadline? =
        some (now + i.burst.window) := by rw [deadline_handle, if_pos hstirs]
    refine ⟨fun _ => ⟨_, hdeadline⟩, fun _ => ?_⟩
    rw [pending_handle, dirty_handle]
    rcases Notice.stirs_iff.mp hstirs with hqueued | ⟨hresync, hloss⟩
    · exact .inl (List.append_ne_nil_of_right_ne_nil _ hqueued)
    · exact .inr (by rw [hresync, hloss, Bool.true_and, Bool.or_true])
  · -- Nothing is queued and the deadline stays. The mark stays too, or it is set.
    have hpending : (i.handle plan fs now notice).1.burst.pending = i.burst.pending := by
      rw [pending_handle, Notice.queued_eq_nil hstirs, List.append_nil]
    have hdeadline : (i.handle plan fs now notice).1.burst.deadline? = i.burst.deadline? := by
      rw [deadline_handle, if_neg hstirs]
    constructor
    · rw [hpending, hdeadline]
      exact hi.pending
    · intro d hd
      rw [hdeadline] at hd
      rw [hpending, dirty_handle]
      exact (hi.deadline hd).imp_right fun hdirty => by rw [hdirty, Bool.true_or]

/-- An answer leaves the burst as it is. It may take the mark away, which does no harm as long as
there is no deadline. -/
theorem IsTimed.conclude (hi : i.IsTimed) (hnone : i.burst.deadline? = none) (accepted : Bool) :
    (i.conclude plan accepted).IsTimed := by
  constructor
  · rw [burst_conclude]
    exact hi.pending
  · intro d hd
    rw [burst_conclude, hnone] at hd
    cases hd

/-- A notice leaves a mark without a deadline as it is, unless it stirs the burst. -/
theorem lingers_handle (notice : Notice) :
    ((i.handle plan fs now notice).1.dirty = true ∧
        (i.handle plan fs now notice).1.burst.deadline? = none) ↔
      (i.dirty = true ∧ i.burst.deadline? = none) ∧
        ¬notice.stirs plan (i.handle plan fs now notice).2 = true := by
  rw [dirty_handle, deadline_handle]
  by_cases hstirs : notice.stirs plan (i.handle plan fs now notice).2 = true
  · simp [hstirs]
  · have hcalm : (plan.resync && notice.reportsLoss) = false := by
      simpa using (not_or.mp (mt Notice.stirs_iff.mpr hstirs)).2
    simp [hstirs, hcalm]

end Intake

namespace Loop

variable {l : Loop} {m : Move} {after : Loop × List Record}

/-- The intake is timed, and the timer runs only while the loop waits. -/
structure IsTimed (l : Loop) : Prop where
  intake : l.intake.IsTimed
  waiting : ∀ {d}, l.deadline? = some d → l.phase = .waiting

theorem isTimed_of_cleared {b : Burst} (h : l.intake.burst = b.cleared) : l.IsTimed where
  intake := Intake.isTimed_of_cleared h
  waiting := fun hd => by
    rw [deadline?, h] at hd
    cases hd

theorem IsTimed.deadline_eq_none (hl : l.IsTimed) (hphase : l.phase ≠ .waiting) :
    l.deadline? = none :=
  Option.eq_none_iff_forall_ne_some.mpr fun _ hd => hphase (hl.waiting hd)

/-- No step strands what is pending. -/
theorem Step.timed (h : Step plan l m after) (hl : l.IsTimed) : after.1.IsTimed := by
  cases h with
  | came intake phase =>
    constructor
    · rw [intake]
      exact hl.intake
    · intro d hd
      rw [deadline?, intake] at hd
      exact phase.trans (hl.waiting hd)
  | finished | busy | idle => exact hl
  | handled phase => exact ⟨hl.intake.handle _, fun _ => phase⟩
  | flushed _ _ _ _ flush | handed _ _ _ _ flush =>
    exact isTimed_of_cleared (congrArg Intake.burst (Intake.eq_of_flush flush))
  | concluded phase =>
    have hnone := hl.deadline_eq_none (by simp [phase])
    exact ⟨hl.intake.conclude hnone _, fun _ => rfl⟩
  | stopped | abandoned => exact isTimed_of_cleared rfl

theorem isTimed_run (plan : Plan) (coverage : Coverage) (ms : List Move) :
    ((start plan coverage).run plan ms).1.IsTimed :=
  invariant_run IsTimed Step.timed ms (isTimed_of_cleared (b := .empty plan.window) rfl)

/-! ### What the timer is set for -/

/-- How the timer of a loop is set that has recorded this. -/
structure Timing (plan : Plan) (l : Loop) (records : List Record) : Prop where
  /-- If something is pending, then the timer is set. -/
  pending : l.pending ≠ [] → ∃ d, l.deadline? = some d
  /-- If the timer is set, then something is pending or the watch is dirty. -/
  deadline : ∀ {d}, l.deadline? = some d → l.pending ≠ [] ∨ l.intake.dirty = true
  /-- It is set to one window after the last notice was handled for which something was queued or
  that reported a loss that is to be made good. -/
  stirred : ∀ {d}, l.deadline? = some d →
    ∃ t, lastStirred plan records = some t ∧ d = t + plan.window

/-- **Nothing that is pending is ever without a timer**, in any state of any run, and the timer is
never set for nothing. -/
theorem timing_run (plan : Plan) (coverage : Coverage) (ms : List Move) :
    Timing plan ((start plan coverage).run plan ms).1 ((start plan coverage).run plan ms).2 where
  pending := (isTimed_run plan coverage ms).intake.pending
  deadline := (isTimed_run plan coverage ms).intake.deadline
  stirred := deadline_run coverage ms

/-! ### What comes of it -/

/-- **What is pending is handed over in time.** It has a deadline. If no notice waits and the watch
goes on, and the loop is left alone until then, then the next turn hands all of it over. -/
theorem IsTimed.handed (hl : l.IsTimed) (hpending : l.pending ≠ []) (hqueue : l.queue = [])
    (hcancelled : l.cancelled = false) (hclosed : l.closed = false) :
    ∃ d, l.deadline? = some d ∧ ∀ milliseconds fs, d ≤ l.clock + milliseconds →
      (l.run plan [.outside (.advance milliseconds), .turn fs]).2 =
        [.handed ⟨l.pending, l.intake.report plan fs, l.clock + milliseconds⟩] := by
  obtain ⟨d, hd⟩ := hl.intake.pending hpending
  refine ⟨d, hd, fun milliseconds fs hpassed => ?_⟩
  have hdue : IsDue { l with clock := l.clock + milliseconds } :=
    ⟨hl.waiting hd, hcancelled, hqueue, hclosed, (Burst.isDue_iff _ _).mpr ⟨d, hd, hpassed⟩⟩
  have hsome : l.pending ++ l.intake.report plan fs ≠ [] :=
    List.append_ne_nil_of_left_ne_nil hpending _
  rw [run_cons, run_cons, run_nil, List.append_nil]
  exact (records_of_isDue hdue fs).trans (if_neg hsome)

/-- **The timer does not run for nothing.** If a burst closes with nothing to hand over, then the
watch is dirty and no registered directory holds a file. -/
theorem IsTimed.dirty_of_lapses (hl : l.IsTimed) (hlapses : l.Lapses plan (.turn fs)) :
    l.intake.dirty = true ∧ l.intake.coverage.files fs plan.scope = [] := by
  obtain ⟨hdue, hnone⟩ := hlapses
  obtain ⟨d, hd, -⟩ := (Burst.isDue_iff _ _).mp hdue.due
  rw [records_of_isDue hdue] at hnone
  split at hnone
  · next hempty =>
    obtain ⟨hpending, hreport⟩ := List.append_eq_nil_iff.mp hempty
    have hdirty := (hl.intake.deadline hd).resolve_left (not_not_intro hpending)
    rw [Intake.report, if_pos hdirty, List.map_eq_nil_iff] at hreport
    exact ⟨hdirty, hreport⟩
  · cases hnone

/-! ### A report without a timer

Nothing that is pending is without a timer, but a report may be. -/

/-- The watch is dirty and there is no timer. -/
def Lingers (l : Loop) : Prop := l.intake.dirty = true ∧ l.deadline? = none

/-- The move stirs the burst. -/
def Stirs (plan : Plan) (l : Loop) (m : Move) : Prop := lastStirred plan (l.move plan m).2 ≠ none

/-- A rejection makes a report linger, and it does so until something stirs the burst. -/
theorem lingers_move (hresync : plan.resync = true) (hl : l.IsTimed)
    (hrunning : (l.move plan m).1.phase ≠ .stopped) :
    (l.move plan m).1.Lingers ↔ l.Answers plan false m ∨ l.Lingers ∧ ¬l.Stirs plan m := by
  have hstep := step_move plan l m
  rw [Answers, Stirs]
  generalize l.move plan m = after at hstep hrunning ⊢
  cases hstep with
  | came intake => simp [Lingers, deadline?, intake]
  | finished | busy | idle => simp
  | handled => simpa [Lingers, deadline?, Record.answer?] using Intake.lingers_handle _
  | flushed _ _ _ due flush | handed _ _ _ due flush =>
    -- The mark is gone afterwards, and there was a timer before.
    obtain ⟨d, hd, -⟩ := (Burst.isDue_iff _ _).mp due
    simp [Lingers, Intake.eq_of_flush flush, Record.answer?, deadline?, hd]
  | @concluded handover accepted phase =>
    have hnone : l.intake.burst.deadline? = none := hl.deadline_eq_none (by simp [phase])
    cases accepted with
    | true =>
      have hcalm : lastStirred plan [.concluded handover true] = none := rfl
      simp [Lingers, deadline?, Intake.conclude, Record.answer?, hcalm]
    | false => simp [Lingers, deadline?, Intake.conclude, Record.answer?, hresync, hnone]
  | stopped | abandoned => exact absurd rfl hrunning

/-- **What is without a timer** is a report after a rejection and nothing else. A watch that is
meant to resynchronise is dirty and has no timer exactly if a batch was rejected and nothing has
stirred the burst since. -/
theorem lingers_run (hresync : plan.resync = true) (coverage : Coverage) (ms : List Move)
    (hrunning : ((start plan coverage).run plan ms).1.phase ≠ .stopped) :
    ((start plan coverage).run plan ms).1.Lingers ↔
      (start plan coverage).Since plan (Answers plan false) (Stirs plan) ms := by
  induction ms using List.reverseRecOn with
  | nil => exact iff_of_false (fun h => Bool.false_ne_true h.1) not_since_nil
  | append_singleton ms m ih =>
    rw [run_append] at hrunning ⊢
    have hbefore : ((start plan coverage).run plan ms).1.phase ≠ .stopped := fun hstopped =>
      hrunning (run_of_stopped plan hstopped [m]).1
    rw [since_concat, ← ih hbefore]
    exact lingers_move hresync (isTimed_run plan coverage ms) hrunning

end Loop

end WorkspaceWatch
