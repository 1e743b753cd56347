import WorkspaceWatch.Proofs.Loop.Conservation

/-!
# The deadline of the burst

A notice **stirs** the burst if something is queued for it, or if it says that signals were lost and
a loss is to be made good. Exactly then the deadline moves, to one window after the time at which
the notice is handled. A flush takes it away and so does the end of the loop. Hence a deadline tells
when the burst was last stirred (`Loop.deadline_run`), and as long as nothing stirs it again a burst
that was flushed stays without a deadline.
-/

namespace WorkspaceWatch

variable {plan : Plan} {fs : FileSystem} {now d : Nat}

/-- The notice says that signals were lost. -/
def Notice.reportsLoss : Notice → Bool
  | .signal s => s.rescan
  | .fault _ => false

/-- The burst is stirred by a notice for which these changes are queued. -/
def Notice.stirs (plan : Plan) (notice : Notice) (queued : List Change) : Bool :=
  queued ≠ [] || (plan.resync && notice.reportsLoss)

/-- The time at which a notice was handled that stirred the burst. -/
def Record.stirred? (plan : Plan) : Record → Option Nat
  | .handled notice queued time => if notice.stirs plan queued then some time else none
  | _ => none

/-- The time at which the burst was last stirred. -/
def lastStirred (plan : Plan) (records : List Record) : Option Nat :=
  (records.filterMap (Record.stirred? plan)).getLast?

theorem Notice.stirs_iff {notice : Notice} {queued : List Change} :
    notice.stirs plan queued = true ↔
      queued ≠ [] ∨ plan.resync = true ∧ notice.reportsLoss = true := by
  simp [stirs]

theorem Notice.queued_eq_nil {notice : Notice} {queued : List Change}
    (h : ¬notice.stirs plan queued = true) : queued = [] := by
  rw [stirs_iff, not_or, Decidable.not_not] at h
  exact h.1

@[simp] theorem lastStirred_nil (plan : Plan) : lastStirred plan [] = none := rfl

theorem lastStirred_append (plan : Plan) (records records' : List Record) :
    lastStirred plan (records ++ records') =
      (lastStirred plan records').or (lastStirred plan records) := by
  rw [lastStirred, List.filterMap_append, List.getLast?_append, ← lastStirred, ← lastStirred]

theorem lastStirred_append_eq_none {records records' : List Record} :
    lastStirred plan (records ++ records') = none ↔
      lastStirred plan records = none ∧ lastStirred plan records' = none := by
  rw [lastStirred_append, Option.or_eq_none_iff, and_comm]

/-- Whatever queues something stirs the burst. -/
theorem gathered_eq_nil {records : List Record} (h : lastStirred plan records = none) :
    records.flatMap Record.gathered = [] := by
  rw [lastStirred, List.getLast?_eq_none_iff, List.filterMap_eq_nil_iff] at h
  rw [List.flatMap_eq_nil_iff]
  intro r hr
  cases r with
  | handled notice queued time =>
    have hstirred := h _ hr
    rw [Record.stirred?, ite_eq_right_iff] at hstirred
    exact Notice.queued_eq_nil fun hstirs => nomatch hstirred hstirs
  | _ => rfl

/-- The burst was stirred by one of the notices that were handled. -/
theorem handled_of_lastStirred {records : List Record} {t : Nat}
    (h : lastStirred plan records = some t) :
    ∃ notice queued, .handled notice queued t ∈ records ∧ notice.stirs plan queued = true := by
  obtain ⟨r, hr, hstirred⟩ := List.mem_filterMap.mp (List.mem_of_getLast? h)
  unfold Record.stirred? at hstirred
  split at hstirred
  · next notice queued time =>
    split at hstirred
    · next hstirs =>
      cases hstirred
      exact ⟨notice, queued, hr, hstirs⟩
    · cases hstirred
  · cases hstirred

@[simp] theorem lastStirred_handled (notice : Notice) (queued : List Change) (time : Nat) :
    lastStirred plan [.handled notice queued time] =
      if notice.stirs plan queued then some time else none := by
  unfold lastStirred
  by_cases h : notice.stirs plan queued = true <;> simp [Record.stirred?, h]

namespace Intake

variable {i : Intake}

/-- Noting a loss moves the deadline only if the loss is to be made good. -/
private theorem deadline_noteLoss :
    (i.noteLoss plan now).burst.window = i.burst.window ∧
      (i.noteLoss plan now).burst.deadline? =
        if plan.resync then some (now + i.burst.window) else i.burst.deadline? := by
  unfold noteLoss
  cases plan.resync <;> exact ⟨rfl, rfl⟩

@[simp] theorem window_handle (notice : Notice) :
    (i.handle plan fs now notice).1.burst.window = i.burst.window := by
  cases notice with
  | fault text => rfl
  | signal s =>
    rw [handle]
    dsimp only
    rw [Burst.window_pushAll]
    split
    · exact deadline_noteLoss.1
    · rfl

/-- The deadline moves exactly if the notice stirs the burst. -/
theorem deadline_handle (notice : Notice) :
    (i.handle plan fs now notice).1.burst.deadline? =
      if notice.stirs plan (i.handle plan fs now notice).2 then some (now + i.burst.window)
      else i.burst.deadline? := by
  cases notice with
  | fault text => simp [handle, Notice.stirs, Notice.reportsLoss]
  | signal s =>
    rw [handle]
    dsimp only
    rw [Burst.deadline_pushAll]
    by_cases hqueued : (absorbAll plan fs
        (if s.rescan then i.noteLoss plan now else i).coverage (s.changes fs)).2 = []
    · rw [if_pos hqueued]
      cases hrescan : s.rescan <;> cases hresync : plan.resync <;>
        simp_all [Notice.stirs, Notice.reportsLoss, deadline_noteLoss]
    · rw [if_neg hqueued, if_pos (Notice.stirs_iff.mpr (.inl hqueued))]
      split
      · rw [deadline_noteLoss.1]
      · rfl

theorem eq_of_flush {i' : Intake} {handover? : Option Handover}
    (h : i.flush plan fs now = (i', handover?)) :
    i' = { i with burst := i.burst.cleared, dirty := false } := by
  rw [flush_eq, Prod.mk.injEq] at h
  exact h.1.symm

theorem handover_of_flush {i' : Intake} {handover : Handover}
    (h : i.flush plan fs now = (i', some handover)) :
    handover = ⟨i.burst.pending, i.report plan fs, now⟩ := by
  rw [flush_eq, Prod.mk.injEq] at h
  obtain ⟨-, h⟩ := h
  split at h <;> cases h
  rfl

@[simp] theorem burst_conclude (accepted : Bool) :
    (i.conclude plan accepted).burst = i.burst := by
  cases accepted <;> rfl

end Intake

namespace Loop

variable {l : Loop} {m : Move} {after : Loop × List Record}

/-- When the burst closes. -/
def deadline? (l : Loop) : Option Nat := l.intake.burst.deadline?

theorem Step.window (h : Step plan l m after) :
    after.1.intake.burst.window = l.intake.burst.window := by
  cases h with
  | came intake => rw [intake]
  | finished | busy | idle => rfl
  | handled => exact Intake.window_handle _
  | flushed _ _ _ _ flush | handed _ _ _ _ flush =>
    rw [Intake.eq_of_flush flush]
    rfl
  | concluded => rw [Intake.burst_conclude]
  | stopped | abandoned => rfl

/-- A deadline that is set after a step was set by this step, or stood before. -/
theorem Step.deadline (h : Step plan l m after) (hd : after.1.deadline? = some d) :
    (∃ t, lastStirred plan after.2 = some t ∧ d = t + l.intake.burst.window) ∨
      lastStirred plan after.2 = none ∧ l.deadline? = some d := by
  cases h with
  | came intake =>
    rw [deadline?, intake] at hd
    exact .inr ⟨rfl, hd⟩
  | finished | busy | idle => exact .inr ⟨rfl, hd⟩
  | handled =>
    rw [deadline?, Intake.deadline_handle] at hd
    rw [lastStirred_handled]
    split at hd
    · next hstirs => exact .inl ⟨l.clock, if_pos hstirs, (Option.some.inj hd).symm⟩
    · next hstirs => exact .inr ⟨if_neg hstirs, hd⟩
  | flushed _ _ _ _ flush | handed _ _ _ _ flush =>
    rw [deadline?, Intake.eq_of_flush flush] at hd
    cases hd
  | concluded =>
    rw [deadline?, Intake.burst_conclude] at hd
    exact .inr ⟨rfl, hd⟩
  | stopped | abandoned => cases hd

theorem window_run (ms : List Move) :
    (l.run plan ms).1.intake.burst.window = l.intake.burst.window :=
  invariant_run (fun l' => l'.intake.burst.window = l.intake.burst.window)
    (fun hstep heq => hstep.window.trans heq) ms rfl

/-- A deadline that is set after a run was set when the burst was last stirred in the run, or stood
before. -/
theorem deadline_run_cases (ms : List Move) (hd : (l.run plan ms).1.deadline? = some d) :
    (∃ t, lastStirred plan (l.run plan ms).2 = some t ∧ d = t + l.intake.burst.window) ∨
      lastStirred plan (l.run plan ms).2 = none ∧ l.deadline? = some d := by
  induction ms generalizing l with
  | nil => exact .inr ⟨rfl, hd⟩
  | cons m ms ih =>
    have hstep := step_move plan l m
    rw [run_cons, lastStirred_append]
    rcases ih (l := (l.move plan m).1) hd with ⟨t, ht, rfl⟩ | ⟨hnone, hd⟩
    · exact .inl ⟨t, by rw [ht, Option.some_or], by rw [hstep.window]⟩
    · rw [hnone, Option.none_or]
      exact hstep.deadline hd

/-- **A deadline tells when the burst was last stirred**: it was one window earlier. -/
theorem deadline_run (coverage : Coverage) (ms : List Move)
    (hd : ((start plan coverage).run plan ms).1.deadline? = some d) :
    ∃ t, lastStirred plan ((start plan coverage).run plan ms).2 = some t ∧
      d = t + plan.window := by
  rcases deadline_run_cases ms hd with hstirred | ⟨-, hd⟩
  · exact hstirred
  · cases hd

/-- A burst without a deadline gets none unless something stirs it. -/
theorem deadline_run_eq_none (ms : List Move) (h : l.deadline? = none)
    (hcalm : lastStirred plan (l.run plan ms).2 = none) :
    (l.run plan ms).1.deadline? = none := by
  rw [Option.eq_none_iff_forall_ne_some]
  intro d hd
  rcases deadline_run_cases ms hd with ⟨t, ht, -⟩ | ⟨-, hd⟩
  · rw [hcalm] at ht
    cases ht
  · rw [h] at hd
    cases hd

/-! ### Handling a notice and handing over -/

/-- A notice is handled by a turn of a loop that waits, and what is queued for it is pending
then. -/
theorem of_handled {notice : Notice} {queued : List Change} {t : Nat} {l' : Loop}
    (h : l.move plan m = (l', [.handled notice queued t])) :
    t = l.clock ∧ l.phase = .waiting ∧ l'.phase = .waiting ∧ l'.clock = t ∧
      l'.intake.burst.window = l.intake.burst.window ∧ l'.pending = l.pending ++ queued ∧
      (notice.stirs plan queued = true → l'.deadline? = some (t + l.intake.burst.window)) := by
  have hstep := step_move plan l m
  have hmem : .handled notice queued t ∈ (l.move plan m).2 := by
    rw [h]
    exact List.mem_singleton_self _
  obtain rfl : (l.move plan m).1 = l' := by rw [h]
  clear h
  generalize l.move plan m = after at hstep hmem ⊢
  cases hstep with
  | handled phase =>
    cases List.mem_singleton.mp hmem
    refine ⟨rfl, phase, phase, rfl, Intake.window_handle _, Intake.pending_handle _, ?_⟩
    intro hstirs
    rw [deadline?, Intake.deadline_handle, if_pos hstirs]
  | _ => simp [stop] at hmem

/-- A batch is handed over by a turn of a loop that waits, with no notice in the queue, once the
deadline has come. It is what was pending and the report, and afterwards there is no deadline. -/
theorem of_handed {h : Handover} (hmem : .handed h ∈ (l.move plan m).2) :
    ∃ fs, m = .turn fs ∧ h = ⟨l.pending, l.intake.report plan fs, l.clock⟩ ∧ l.queue = [] ∧
      (∃ d, l.deadline? = some d ∧ d ≤ l.clock) ∧ (l.move plan m).1.deadline? = none := by
  have hstep := step_move plan l m
  generalize l.move plan m = after at hstep hmem ⊢
  cases hstep with
  | @handed fs intake handover _ _ queue due flush =>
    obtain rfl := Record.handed.inj (List.mem_singleton.mp hmem)
    refine ⟨fs, rfl, Intake.handover_of_flush flush, queue, (Burst.isDue_iff _ _).mp due, ?_⟩
    rw [deadline?, Intake.eq_of_flush flush]
    rfl
  | _ => simp [stop] at hmem

end Loop

end WorkspaceWatch
