import WorkspaceWatch.Proofs.Loop.Deadline

/-!
# The quiet period

A burst closes once it has been quiet for a whole window. The main statement, `Loop.coalesces_run`,
says what this means for batches, on a clock of whole milliseconds and for every schedule of notices
and every latency of the notifier:

* **quiet**: a batch is handed over only while no notice waits, and a whole window or more after the
  burst was last stirred;
* **prompt**: what is pending is handed over exactly one window after that;
* **together**: what is queued less than a window apart goes into one batch;
* **apart**: what is queued more than a window apart goes into different batches.

The second and the last hold for a loop that takes its turns promptly (`Loop.IsPrompt`), so that the
only time that passes is time in which it has nothing to do. The others hold in every run.
-/

namespace WorkspaceWatch

namespace Loop

variable {plan : Plan} {l : Loop} {m : Move} {after : Loop × List Record} {d : Nat}

/-! ### Time -/

theorem Step.clock (h : Step plan l m after) : after.1.clock = l.clock + m.elapsed := by
  cases h with
  | came _ _ _ _ _ clock => exact clock
  | _ => rfl

theorem clock_le_run (ms : List Move) : l.clock ≤ (l.run plan ms).1.clock := by
  induction ms generalizing l with
  | nil => exact Nat.le_refl _
  | cons m ms ih =>
    calc l.clock ≤ l.clock + m.elapsed := Nat.le_add_right _ _
      _ = (l.move plan m).1.clock := (step_move plan l m).clock.symm
      _ ≤ (l.run plan (m :: ms)).1.clock := ih

/-- The loop has nothing to do but wait. -/
def AtRest (plan : Plan) (l : Loop) : Prop := ∀ fs, l.turn plan fs = none

/-- The move takes no time from the loop: in each millisecond that passes with it the loop is at
rest. -/
def IsPrompt (plan : Plan) (l : Loop) (m : Move) : Prop :=
  ∀ k < m.elapsed, AtRest plan { l with clock := l.clock + k }

/-- The loop does nothing before something comes from outside or time passes. -/
def rests (l : Loop) : Bool :=
  match l.phase with
  | .stopped => true
  | .delivering _ => !l.cancelled
  | .waiting =>
    !l.cancelled && l.queue = [] && !l.closed && !l.intake.burst.isDue l.clock

/-- Whether the loop is at rest does not depend on the file system. -/
theorem atRest_iff : l.AtRest plan ↔ l.rests = true := by
  have hturn : ∀ fs, l.turn plan fs = none ↔ l.rests = true := fun fs => by
    rw [turn, rests]
    cases l.phase with
    | stopped => simp
    | delivering handover => cases l.cancelled <;> simp
    | waiting =>
      cases l.cancelled with
      | true => simp
      | false =>
        cases l.queue with
        | cons notice queue => simp
        | nil =>
          obtain ⟨intake, _ | handover⟩ := l.intake.flush plan fs l.clock <;>
            cases l.closed <;> simp
  exact ⟨fun h => (hturn default).mp (h default), fun h fs => (hturn fs).mpr h⟩

instance (l : Loop) : Decidable (l.AtRest plan) := decidable_of_iff' _ atRest_iff

instance (l : Loop) (m : Move) : Decidable (l.IsPrompt plan m) :=
  inferInstanceAs (Decidable (∀ k < m.elapsed, _))

/-- A loop that waits is not at rest once its deadline has come. -/
theorem not_atRest (hphase : l.phase = .waiting) (hd : l.deadline? = some d) (hdue : d ≤ l.clock) :
    ¬l.AtRest plan := by
  have hdue : l.intake.burst.isDue l.clock = true := (Burst.isDue_iff _ _).mpr ⟨d, hd, hdue⟩
  simp [atRest_iff, rests, hphase, hdue]

/-- Time does not run past the deadline of a loop that waits and is prompt. -/
theorem IsPrompt.clock_le (h : l.IsPrompt plan m) (hphase : l.phase = .waiting)
    (hd : l.deadline? = some d) (hle : l.clock ≤ d) : l.clock + m.elapsed ≤ d := by
  refine Nat.le_of_not_lt fun hlate => ?_
  obtain ⟨k, rfl⟩ := Nat.exists_eq_add_of_le hle
  exact not_atRest (l := { l with clock := l.clock + k }) hphase hd (Nat.le_refl _)
    (h k (by omega))

/-! ### What stays pending -/

/-- A loop that has not stopped has dropped nothing. -/
theorem run_discarded (ms : List Move) (h : (l.run plan ms).1.phase ≠ .stopped) :
    (l.run plan ms).2.flatMap Record.discarded = [] := by
  induction ms generalizing l with
  | nil => rfl
  | cons m ms ih =>
    rw [run_cons] at h ⊢
    rw [List.flatMap_append, ih h, List.append_nil]
    refine (step_move plan l m).discarded.resolve_right fun hstopped => ?_
    exact h (run_of_stopped plan hstopped ms).1

/-- As long as the loop has not stopped, what was queued was handed over or is pending. -/
theorem run_pending (ms : List Move) (h : (l.run plan ms).1.phase ≠ .stopped) :
    l.pending ++ (l.run plan ms).2.flatMap Record.gathered =
      (l.run plan ms).2.flatMap Record.carried ++ (l.run plan ms).1.pending := by
  rw [run_gathered, run_balanced, run_discarded ms h, List.nil_append]

/-- Where nothing is handed over nothing is carried. -/
theorem carried_eq_nil {records : List Record} (h : records.filterMap Record.handover? = []) :
    records.flatMap Record.carried = [] := by
  rw [List.filterMap_eq_nil_iff] at h
  rw [List.flatMap_eq_nil_iff]
  intro r hr
  cases r with
  | handed handover => cases h _ hr
  | _ => rfl

/-- The first batch that is handed over begins with what is pending. -/
theorem pending_prefix {h : Handover} (ms : List Move)
    (hfirst : ((l.run plan ms).2.filterMap Record.handover?).head? = some h) :
    l.pending <+: h.queued := by
  induction ms generalizing l with
  | nil => cases hfirst
  | cons m ms ih =>
    have hstep := step_move plan l m
    have hbalanced := hstep.balanced
    rw [run_cons] at hfirst
    generalize l.move plan m = after at hstep hbalanced hfirst
    cases hstep with
    | handed _ _ _ _ flush =>
      cases hfirst
      rw [(Intake.flush_some flush).1]
      exact List.prefix_rfl
    | stopped | abandoned =>
      rw [(run_of_stopped plan rfl ms).2.2] at hfirst
      cases hfirst
    | _ =>
      have hkept : l.pending <+: _ := hbalanced ▸ List.prefix_append _ _
      exact List.IsPrefix.trans hkept (ih hfirst)

/-! ### Before the deadline -/

/-- Nothing is handed over before the time `d`: the deadline is no earlier, and a window that begins
now does not end before. -/
structure Delays (l : Loop) (d : Nat) : Prop where
  deadline : ∃ d', l.deadline? = some d' ∧ d ≤ d'
  window : d ≤ l.clock + l.intake.burst.window

theorem Delays.not_isDue (h : l.Delays d) (hearly : l.clock < d) :
    l.intake.burst.isDue l.clock ≠ true := fun hdue => by
  obtain ⟨d₁, hd₁, hle₁⟩ := h.deadline
  obtain ⟨d₂, hd₂, hle₂⟩ := (Burst.isDue_iff _ _).mp hdue
  obtain rfl : d₁ = d₂ := Option.some.inj (hd₁.symm.trans hd₂)
  omega

/-- Whatever stirs the burst before the time `d` moves the deadline on. -/
theorem Step.delays (h : Step plan l m after) (hl : l.Delays d) (hearly : l.clock < d) :
    after.2.filterMap Record.handover? = [] ∧ (after.1.Delays d ∨ after.1.phase = .stopped) := by
  have hclock := h.clock
  have hwindow := h.window
  cases h with
  | came intake =>
    refine ⟨rfl, .inl ⟨?_, ?_⟩⟩
    · rw [deadline?, intake]
      exact hl.deadline
    · rw [hwindow, hclock]
      exact Nat.le_trans hl.window (Nat.add_le_add_right (Nat.le_add_right _ _) _)
  | finished phase => exact ⟨rfl, .inr phase⟩
  | busy | idle => exact ⟨rfl, .inl hl⟩
  | handled =>
    refine ⟨rfl, .inl ⟨?_, hwindow ▸ hl.window⟩⟩
    rw [deadline?, Intake.deadline_handle]
    split
    · exact ⟨_, rfl, hl.window⟩
    · exact hl.deadline
  | flushed _ _ _ due | handed _ _ _ due => exact absurd due (hl.not_isDue hearly)
  | concluded =>
    refine ⟨rfl, .inl ⟨?_, hwindow ▸ hl.window⟩⟩
    rw [deadline?, Intake.burst_conclude]
    exact hl.deadline
  | stopped | abandoned => exact ⟨rfl, .inr rfl⟩

theorem run_delays (ms : List Move) (hl : l.Delays d) (hearly : (l.run plan ms).1.clock < d) :
    (l.run plan ms).2.filterMap Record.handover? = [] := by
  induction ms generalizing l with
  | nil => rfl
  | cons m ms ih =>
    have hnow : l.clock < d := Nat.lt_of_le_of_lt (clock_le_run (m :: ms)) hearly
    obtain ⟨hnone, hstep⟩ := (step_move plan l m).delays hl hnow
    rw [run_cons, List.filterMap_append, hnone, List.nil_append]
    rcases hstep with hl | hstopped
    · exact ih hl hearly
    · rw [(run_of_stopped plan hstopped ms).2.2]
      rfl

/-! ### At the deadline -/

/-- The loop waits until the time `d` to hand over what is pending. -/
structure Awaits (l : Loop) (d : Nat) (changes : List Change) : Prop where
  phase : l.phase = .waiting
  deadline : l.deadline? = some d
  clock : l.clock ≤ d
  pending : l.pending = changes

/-- If nothing stirs the burst and the loop is prompt, then it waits on, or hands over what is
pending when the time has come, or stops. -/
theorem Step.awaits {changes : List Change} (h : Step plan l m after) (hl : l.Awaits d changes)
    (hsome : changes ≠ []) (hprompt : l.IsPrompt plan m)
    (hcalm : lastStirred plan after.2 = none) :
    after.1.Awaits d changes ∨ (∃ h, .handed h ∈ after.2 ∧ h.queued = changes ∧ h.time = d) ∨
      after.1.phase = .stopped := by
  have hclock := h.clock
  cases h with
  | came intake phase =>
    refine .inl ⟨phase.trans hl.phase, ?_, ?_, ?_⟩
    · rw [deadline?, intake]
      exact hl.deadline
    · rw [hclock]
      exact hprompt.clock_le hl.phase hl.deadline hl.clock
    · rw [Loop.pending, intake]
      exact hl.pending
  | idle => exact .inl hl
  | @handled fs notice =>
    -- What is handled does not stir the burst, so it queues nothing.
    rw [lastStirred_handled, ite_eq_right_iff] at hcalm
    have hstill : ¬notice.stirs plan (l.intake.handle plan fs l.clock notice).2 = true :=
      fun hstirs => Option.some_ne_none _ (hcalm hstirs)
    refine .inl ⟨hl.phase, ?_, hl.clock, ?_⟩
    · rw [deadline?, Intake.deadline_handle, if_neg hstill]
      exact hl.deadline
    · rw [Loop.pending, Intake.pending_handle, Notice.queued_eq_nil hstill, List.append_nil]
      exact hl.pending
  | flushed _ _ _ _ flush =>
    exact absurd (hl.pending.symm.trans (Intake.pending_of_flush_none flush).1) hsome
  | @handed _ _ handover _ _ _ due flush =>
    obtain ⟨d', hd', hdue⟩ := (Burst.isDue_iff _ _).mp due
    obtain rfl : d = d' := Option.some.inj (hl.deadline.symm.trans hd')
    rw [Intake.handover_of_flush flush]
    exact .inr (.inl ⟨_, List.mem_singleton_self _, hl.pending, Nat.le_antisymm hl.clock hdue⟩)
  | stopped => exact .inr (.inr rfl)
  | finished phase | busy phase | concluded phase | abandoned phase =>
    rw [hl.phase] at phase
    cases phase

/-- **What is pending is handed over at the deadline**, if nothing stirs the burst before and the
loop is prompt and does not stop. -/
theorem handed_at_deadline {changes : List Change} (ms : List Move) (hl : l.Awaits d changes)
    (hsome : changes ≠ []) (hprompt : l.Along plan (IsPrompt plan) ms)
    (hcalm : lastStirred plan (l.run plan ms).2 = none) (hpast : d < (l.run plan ms).1.clock)
    (hruns : (l.run plan ms).1.phase ≠ .stopped) :
    ∃ h, .handed h ∈ (l.run plan ms).2 ∧ h.queued = changes ∧ h.time = d := by
  induction ms generalizing l with
  | nil => exact absurd hpast (Nat.not_lt.mpr hl.clock)
  | cons m ms ih =>
    rw [run_cons] at hcalm hpast hruns ⊢
    obtain ⟨hcalm, hcalm'⟩ := lastStirred_append_eq_none.mp hcalm
    rcases (step_move plan l m).awaits hl hsome hprompt.1 hcalm with hl | ⟨h, hmem, hh⟩ | hstopped
    · obtain ⟨h, hmem, hh⟩ := ih hl hprompt.2 hcalm' hpast hruns
      exact ⟨h, List.mem_append_right _ hmem, hh⟩
    · exact ⟨h, List.mem_append_left _ hmem, hh⟩
    · exact absurd (run_of_stopped plan hstopped ms).1 hruns

/-! ### Batches -/

/-- A loop stops only if it is cancelled or no more notices will come. -/
theorem Step.ended (h : Step plan l m after)
    (hl : l.phase = .stopped → l.cancelled = true ∨ l.closed = true) :
    after.1.phase = .stopped → after.1.cancelled = true ∨ after.1.closed = true := by
  cases h with
  | came _ phase _ cancelled closed =>
    exact fun hstopped => (hl (phase.symm.trans hstopped)).imp cancelled closed
  | stopped _ ended => exact fun _ => ended.imp_right And.right
  | abandoned _ cancelled => exact fun _ => .inl cancelled
  | handled phase | flushed phase => exact fun hstopped => nomatch phase.symm.trans hstopped
  | handed | concluded => exact fun hstopped => nomatch hstopped
  | finished | busy | idle => exact hl

/-- How a loop `l` that came about with these records gathers changes into batches. -/
structure Coalesces (plan : Plan) (records : List Record) (l : Loop) : Prop where
  /-- A batch is handed over only while no notice waits, and when a whole window or more has passed
  since the burst was last stirred. -/
  quiet : ∀ {m h}, .handed h ∈ (l.move plan m).2 →
    l.queue = [] ∧ h.time = l.clock ∧
      ∃ t, lastStirred plan records = some t ∧ t + plan.window ≤ h.time
  /-- What is pending after a notice has stirred the burst is handed over exactly one window later,
  if nothing stirs it meanwhile and the loop, which is prompt, is not told to end. -/
  prompt : ∀ {m l' notice queued t ms}, l.move plan m = (l', [.handled notice queued t]) →
    notice.stirs plan queued = true → l'.pending ≠ [] →
    l'.Along plan (IsPrompt plan) ms → lastStirred plan (l'.run plan ms).2 = none →
    t + plan.window < (l'.run plan ms).1.clock →
    (l'.run plan ms).1.cancelled = false → (l'.run plan ms).1.closed = false →
    ∃ h, .handed h ∈ (l'.run plan ms).2 ∧ h.queued = l'.pending ∧ h.time = t + plan.window
  /-- What two notices queue less than a window apart goes into one batch, the next that is handed
  over, together with what is queued in between. -/
  together : ∀ {m₁ m₂ l₁ l₂ notice₁ notice₂ queued₁ queued₂ t₁ t₂ mid ms h},
    l.move plan m₁ = (l₁, [.handled notice₁ queued₁ t₁]) → queued₁ ≠ [] →
    (l₁.run plan mid).1.move plan m₂ = (l₂, [.handled notice₂ queued₂ t₂]) →
    t₂ < t₁ + plan.window →
    ((l₁.run plan (mid ++ m₂ :: ms)).2.filterMap Record.handover?).head? = some h →
    queued₁ ++ (l₁.run plan mid).2.flatMap Record.gathered ++ queued₂ <:+: h.queued
  /-- If nothing stirs the burst between two notices more than a window apart, and the loop is
  prompt, then what the first one queues has been handed over when the second one is handled. -/
  apart : ∀ {m₁ m₂ l₁ l₂ notice₁ notice₂ queued₁ queued₂ t₁ t₂ mid},
    l.move plan m₁ = (l₁, [.handled notice₁ queued₁ t₁]) → queued₁ ≠ [] →
    l₁.Along plan (IsPrompt plan) mid → lastStirred plan (l₁.run plan mid).2 = none →
    (l₁.run plan mid).1.move plan m₂ = (l₂, [.handled notice₂ queued₂ t₂]) →
    t₁ + plan.window < t₂ →
    (∃ h, .handed h ∈ (l₁.run plan mid).2 ∧ queued₁ <:+ h.queued) ∧ l₂.pending = queued₂

section Stretches

variable {l₁ l₂ : Loop} {m₁ m₂ : Move} {notice₁ notice₂ : Notice} {queued₁ queued₂ : List Change}
  {t₁ t₂ : Nat} (hwindow : l.intake.burst.window = plan.window)
  (hfirst : l.move plan m₁ = (l₁, [.handled notice₁ queued₁ t₁]))
include hwindow hfirst

/-- After a notice has stirred the burst the loop waits for a whole window. -/
theorem awaits_of_handled (hstirs : notice₁.stirs plan queued₁ = true) :
    l₁.Awaits (t₁ + plan.window) l₁.pending := by
  obtain ⟨-, -, hphase, hclock, -, -, hset⟩ := of_handled hfirst
  exact ⟨hphase, hwindow ▸ hset hstirs, hclock ▸ Nat.le_add_right _ _, rfl⟩

/-- After a notice has stirred the burst nothing is handed over for a whole window. -/
theorem delays_of_handled (hstirs : notice₁.stirs plan queued₁ = true) :
    l₁.Delays (t₁ + plan.window) := by
  obtain ⟨-, -, -, hclock, hwindow₁, -, hset⟩ := of_handled hfirst
  rw [hwindow] at hset hwindow₁
  exact ⟨⟨_, hset hstirs, Nat.le_refl _⟩, Nat.le_of_eq (by rw [hclock, hwindow₁])⟩

variable {mid ms : List Move} (hqueued : queued₁ ≠ [])
  (hsecond : (l₁.run plan mid).1.move plan m₂ = (l₂, [.handled notice₂ queued₂ t₂]))
include hqueued hsecond

theorem infix_of_near {h : Handover} (hnear : t₂ < t₁ + plan.window)
    (hhead : ((l₁.run plan (mid ++ m₂ :: ms)).2.filterMap Record.handover?).head? = some h) :
    queued₁ ++ (l₁.run plan mid).2.flatMap Record.gathered ++ queued₂ <:+: h.queued := by
  obtain ⟨-, -, -, -, -, hpending₁, -⟩ := of_handled hfirst
  obtain ⟨rfl, hphase, -, -, -, hpending₂, -⟩ := of_handled hsecond
  have hdelays := delays_of_handled hwindow hfirst (Notice.stirs_iff.mpr (.inl hqueued))
  have hnone := run_delays mid hdelays hnear
  have hruns : (l₁.run plan mid).1.phase ≠ .stopped := fun h => nomatch hphase.symm.trans h
  have hkept := run_pending mid hruns
  rw [carried_eq_nil hnone, List.nil_append] at hkept
  rw [run_append, List.filterMap_append, hnone, List.nil_append, run_cons, hsecond] at hhead
  have hprefix : l₂.pending <+: h.queued := pending_prefix ms hhead
  rw [hpending₂, ← hkept, hpending₁, List.append_assoc, List.append_assoc] at hprefix
  rw [List.append_assoc]
  exact (List.suffix_append _ _).isInfix.trans hprefix.isInfix

theorem handed_of_far (hprompt : l₁.Along plan (IsPrompt plan) mid)
    (hcalm : lastStirred plan (l₁.run plan mid).2 = none) (hfar : t₁ + plan.window < t₂) :
    (∃ h, .handed h ∈ (l₁.run plan mid).2 ∧ queued₁ <:+ h.queued) ∧ l₂.pending = queued₂ := by
  obtain ⟨-, -, -, -, -, hpending₁, -⟩ := of_handled hfirst
  obtain ⟨rfl, hphase, -, -, -, hpending₂, -⟩ := of_handled hsecond
  have hawaits := awaits_of_handled hwindow hfirst (Notice.stirs_iff.mpr (.inl hqueued))
  have hruns : (l₁.run plan mid).1.phase ≠ .stopped := fun h => nomatch hphase.symm.trans h
  have hsome : l₁.pending ≠ [] := by simp [hpending₁, hqueued]
  obtain ⟨h, hmem, hall, -⟩ := handed_at_deadline mid hawaits hsome hprompt hcalm hfar hruns
  refine ⟨⟨h, hmem, hall ▸ hpending₁ ▸ List.suffix_append _ _⟩, ?_⟩
  -- The batch holds all that was pending, and nothing was queued since.
  have hkept := congrArg List.length (run_pending mid hruns)
  have hwhole : h.queued.length ≤ ((l₁.run plan mid).2.flatMap Record.carried).length :=
    (List.infix_of_mem_flatten (List.mem_map_of_mem (f := Record.carried) hmem)).length_le
  rw [gathered_eq_nil hcalm, List.append_nil, List.length_append, ← hall] at hkept
  have hnone : (l₁.run plan mid).1.pending = [] := List.eq_nil_of_length_eq_zero (by omega)
  rw [hpending₂, hnone, List.nil_append]

end Stretches

/-- **Quiet-period coalescing**: every loop gathers changes into batches like this, at any time of
any run. -/
theorem coalesces_run (plan : Plan) (coverage : Coverage) (before : List Move) :
    Coalesces plan ((start plan coverage).run plan before).2
      ((start plan coverage).run plan before).1 := by
  have hwindow : ((start plan coverage).run plan before).1.intake.burst.window = plan.window :=
    window_run before
  refine ⟨fun hmem => ?_, fun {m l' notice queued t ms} hmove hstirs hsome hprompt hcalm hpast hgoes
    hopen => ?_, fun hfirst hqueued hsecond => ?_, fun hfirst hqueued hprompt hcalm hsecond => ?_⟩
  · obtain ⟨fs, -, rfl, hqueue, ⟨d, hd, hdue⟩, -⟩ := of_handed hmem
    obtain ⟨t, ht, rfl⟩ := deadline_run coverage before hd
    exact ⟨hqueue, rfl, t, ht, hdue⟩
  · have hawaits := awaits_of_handled hwindow hmove hstirs
    refine handed_at_deadline ms hawaits hsome hprompt hcalm hpast fun hstopped => ?_
    have hended := invariant_run
      (fun l => l.phase = .stopped → l.cancelled = true ∨ l.closed = true)
      (fun hstep => hstep.ended) ms (fun h => nomatch hawaits.phase.symm.trans h) hstopped
    simp [hgoes, hopen] at hended
  · exact infix_of_near hwindow hfirst hqueued hsecond
  · exact handed_of_far hwindow hfirst hqueued hsecond hprompt hcalm

/-- The path `/w` changes at the time 7, in a watch with a window of 100 milliseconds. -/
def singleChange : List Move :=
  [.outside (.advance 7),
    .outside (.arrive (.signal { kind := .modify .any, paths := [⟨[slash, 119]⟩] }))]

/-- A single change is handed over at the time 107. -/
theorem coalesces_single : ∃ h, .handed h ∈ ((start { window := 100 } {}).run { window := 100 }
      (singleChange ++ [.turn default, .outside (.advance 100), .turn default,
        .outside (.advance 1)])).2 ∧
    h.queued = [.changed ⟨[slash, 119]⟩] ∧ h.time = 107 := by
  let l := ((start { window := 100 } {}).run { window := 100 } singleChange).1
  have hmove : l.move { window := 100 } (.turn default) =
      ((l.move { window := 100 } (.turn default)).1,
        [.handled (.signal { kind := .modify .any, paths := [⟨[slash, 119]⟩] })
          [.changed ⟨[slash, 119]⟩] 7]) := by decide
  obtain ⟨h, hmem, hqueued, htime⟩ : ∃ h,
      .handed h ∈ ((l.move { window := 100 } (.turn default)).1.run { window := 100 }
        [.outside (.advance 100), .turn default, .outside (.advance 1)]).2 ∧
      h.queued = [.changed ⟨[slash, 119]⟩] ∧ h.time = 107 :=
    (coalesces_run { window := 100 } {} singleChange).prompt hmove (by decide) (by decide)
      (by decide) (by decide) (by decide) (by decide) (by decide)
  refine ⟨h, ?_, hqueued, htime⟩
  rw [run_append, run_cons]
  exact List.mem_append_right _ (List.mem_append_right _ hmem)

end Loop

end WorkspaceWatch
