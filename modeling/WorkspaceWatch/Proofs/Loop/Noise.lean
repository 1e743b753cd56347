import WorkspaceWatch.Proofs.Coverage.Counters
import WorkspaceWatch.Proofs.Loop.Containment
import WorkspaceWatch.Proofs.Loop.Quiet

/-!
# Noise

A notice is noise if it is an error, or a signal that tells of no loss and of no change but to
ignored paths. Noise takes the same way through the queue as everything else. It is counted, and
that is all that comes of it.

This is a statement about two runs. `Loop.withoutNoise` leaves out of a run the moves by which noise
comes and is handled, `Loop.catchUp` puts into a run the turns by which noise that comes in addition
is handled. `Loop.noise_run` says that either way the same is registered, handed over and due, at
the same times. The one invariant is `Loop.Hushes`: the one loop is the other without the noise in
its queue and without what noise is counted by.
-/

namespace WorkspaceWatch

/-- The notice is an error, or a signal that tells of no loss and of no change but to ignored
paths. -/
def Notice.isNoise (rules : IgnoreRules) : Notice → Bool
  | .signal s => !s.rescan && (s.isReading || s.paths.all rules.ignores)
  | .fault _ => true

/-- Whether a signal is noise does not depend on the file system in which it is read. -/
theorem Notice.isNoise_iff {rules : IgnoreRules} {s : Signal} (fs : FileSystem) :
    (Notice.signal s).isNoise rules = true ↔
      s.rescan = false ∧ ∀ change ∈ s.changes fs, rules.ignores change.path = true := by
  have hpaths : (∀ change ∈ s.changes fs, rules.ignores change.path = true) ↔
      ∀ p ∈ (s.changes fs).map Change.path, rules.ignores p = true := by simp
  rw [hpaths, Signal.map_path_changes, isNoise]
  cases s.isReading <;> simp

/-- The move lets noise come. -/
def Move.isNoise (rules : IgnoreRules) : Move → Bool
  | .outside (.arrive notice) => notice.isNoise rules
  | _ => false

/-- Noise was handled. -/
def Record.isNoise (rules : IgnoreRules) : Record → Bool
  | .handled notice _ _ => notice.isNoise rules
  | _ => false

/-! ### Taking in noise -/

namespace Intake

variable {plan : Plan} {fs : FileSystem} {now : Nat} {c c' : Coverage} {i i' : Intake}

/-- What is kept differs at most in how many changes were ignored and how many errors there were. -/
structure Agrees (i i' : Intake) : Prop where
  coverage : i.coverage.Agrees i'.coverage
  burst : i.burst = i'.burst
  dirty : i.dirty = i'.dirty

theorem absorb_agrees (plan : Plan) (fs : FileSystem) (h : c.Agrees c') (change : Change) :
    (absorb plan fs c change).1.Agrees (absorb plan fs c' change).1 ∧
      (absorb plan fs c change).2 = (absorb plan fs c' change).2 := by
  have hobserved := h.record .eventObserved
  rw [absorb, absorb]
  split
  · exact ⟨h.record _, rfl⟩
  · dsimp only
    rw [hobserved.isRegistered]
    split <;> try split
    · obtain ⟨hcreated, hfound⟩ := hobserved.registerCreated fs plan.scope plan.policy
        change.path
      exact ⟨hcreated, by rw [hfound]⟩
    · exact ⟨hobserved, rfl⟩
    · exact ⟨hobserved.unregister, rfl⟩
    · exact ⟨hobserved, rfl⟩
    · exact ⟨hobserved, rfl⟩

theorem absorbAll_agrees (plan : Plan) (fs : FileSystem) (h : c.Agrees c') (changes : List Change) :
    (absorbAll plan fs c changes).1.Agrees (absorbAll plan fs c' changes).1 ∧
      (absorbAll plan fs c changes).2 = (absorbAll plan fs c' changes).2 := by
  induction changes generalizing c c' with
  | nil => exact ⟨h, rfl⟩
  | cons change changes ih =>
    obtain ⟨hfirst, hqueued⟩ := absorb_agrees plan fs h change
    obtain ⟨hrest, hqueued'⟩ := ih hfirst
    exact ⟨hrest, congrArg₂ (· ++ ·) hqueued hqueued'⟩

theorem Agrees.noteLoss (h : i.Agrees i') :
    (i.noteLoss plan now).Agrees (i'.noteLoss plan now) := by
  rw [Intake.noteLoss, Intake.noteLoss]
  dsimp only
  split
  · exact ⟨h.coverage.record _, by rw [h.burst], rfl⟩
  · exact ⟨h.coverage.record _, h.burst, h.dirty⟩

theorem Agrees.handle (h : i.Agrees i') (plan : Plan) (fs : FileSystem) (now : Nat)
    (notice : Notice) :
    (i.handle plan fs now notice).1.Agrees (i'.handle plan fs now notice).1 ∧
      (i.handle plan fs now notice).2 = (i'.handle plan fs now notice).2 := by
  cases notice with
  | fault text => exact ⟨⟨h.coverage.record _, h.burst, h.dirty⟩, rfl⟩
  | signal s =>
    have hheeded : (if s.rescan then i.noteLoss plan now else i).Agrees
        (if s.rescan then i'.noteLoss plan now else i') := by
      split
      · exact h.noteLoss
      · exact h
    obtain ⟨hcoverage, hqueued⟩ := absorbAll_agrees plan fs hheeded.coverage (s.changes fs)
    refine ⟨⟨hcoverage, ?_, hheeded.dirty⟩, hqueued⟩
    rw [Intake.handle, Intake.handle]
    dsimp only
    rw [hheeded.burst, hqueued]

theorem Agrees.flush (h : i.Agrees i') (plan : Plan) (fs : FileSystem) (now : Nat) :
    (i.flush plan fs now).1.Agrees (i'.flush plan fs now).1 ∧
      (i.flush plan fs now).2 = (i'.flush plan fs now).2 := by
  have hreport : i.report plan fs = i'.report plan fs := by
    rw [report, report, h.dirty, h.coverage.files]
  rw [flush_eq, flush_eq, h.burst, hreport]
  exact ⟨⟨h.coverage, rfl, rfl⟩, rfl⟩

theorem Agrees.conclude (h : i.Agrees i') (accepted : Bool) :
    (i.conclude plan accepted).Agrees (i'.conclude plan accepted) := by
  cases accepted
  · exact ⟨h.coverage.record _, h.burst, rfl⟩
  · exact ⟨h.coverage.record _, h.burst, h.dirty⟩

/-- Ignored changes are counted, and nothing comes of them. -/
theorem absorbAll_of_ignores (fs : FileSystem) {changes : List Change} (h : c.Agrees c')
    (hignored : ∀ change ∈ changes, plan.scope.ignore.ignores change.path = true) :
    (absorbAll plan fs c changes).1.Agrees c' ∧ (absorbAll plan fs c changes).2 = [] := by
  induction changes generalizing c with
  | nil => exact ⟨h, rfl⟩
  | cons change changes ih =>
    obtain ⟨hchange, hchanges⟩ := List.forall_mem_cons.mp hignored
    rw [absorbAll, absorb, if_pos hchange]
    exact ih (h.record_left (.inl rfl)) hchanges

/-- **Nothing comes of noise.** -/
theorem Agrees.handle_noise {notice : Notice} (h : i.Agrees i')
    (hnoise : notice.isNoise plan.scope.ignore = true) :
    (i.handle plan fs now notice).1.Agrees i' ∧ (i.handle plan fs now notice).2 = [] := by
  cases notice with
  | fault text => exact ⟨⟨h.coverage.record_left (.inr rfl), h.burst, h.dirty⟩, rfl⟩
  | signal s =>
    obtain ⟨hrescan, hignored⟩ := (Notice.isNoise_iff fs).mp hnoise
    obtain ⟨hcoverage, hqueued⟩ := absorbAll_of_ignores fs h.coverage hignored
    rw [Intake.handle, hrescan]
    dsimp only
    rw [if_neg Bool.false_ne_true]
    refine ⟨⟨hcoverage, ?_, h.dirty⟩, hqueued⟩
    rw [hqueued]
    exact h.burst

end Intake

/-! ### One loop without the noise in the other -/

namespace Loop

variable {plan : Plan} {fs : FileSystem} {l l' : Loop} {m : Move} {ms : List Move}

/-- How many notices that are noise the loop is about to handle before it does anything else. -/
def noiseAhead (plan : Plan) (l : Loop) : Nat :=
  match l.phase with
  | .waiting =>
    if l.cancelled then 0
    else (l.queue.takeWhile fun notice => notice.isNoise plan.scope.ignore).length
  | _ => 0

/-- By the move noise comes or is handled. -/
def concernsNoise (plan : Plan) (l : Loop) : Move → Bool
  | .turn _ => 0 < l.noiseAhead plan
  | m => m.isNoise plan.scope.ignore

/-- The loop `l'` is the loop `l` without the noise in its queue and, at most, with other numbers of
ignored changes and of errors. -/
def Hushes (plan : Plan) (l l' : Loop) : Prop :=
  ∃ i, l.intake.Agrees i ∧ l' =
    { l with
      intake := i
      queue := l.queue.filter fun notice => !notice.isNoise plan.scope.ignore }

/-- If noise is next, a turn handles it. -/
theorem noiseAhead_eq_succ (fs : FileSystem) {n : Nat} (h : l.noiseAhead plan = n + 1) :
    ∃ notice rest, notice.isNoise plan.scope.ignore = true ∧ l.queue = notice :: rest ∧
      l.move plan (.turn fs) =
        ({ l with intake := (l.intake.handle plan fs l.clock notice).1, queue := rest },
          [.handled notice (l.intake.handle plan fs l.clock notice).2 l.clock]) ∧
      (l.move plan (.turn fs)).1.noiseAhead plan = n := by
  obtain ⟨i, queue, closed, cancelled, phase, clock⟩ := l
  cases phase with
  | stopped | delivering => cases h
  | waiting =>
    cases cancelled with
    | true => cases h
    | false =>
      cases queue with
      | nil => cases h
      | cons notice rest =>
        cases hnoise : notice.isNoise plan.scope.ignore with
        | false => simp [noiseAhead, hnoise] at h
        | true =>
          have hrest : (rest.takeWhile (·.isNoise plan.scope.ignore)).length = n := by
            simpa [noiseAhead, hnoise] using h
          exact ⟨notice, rest, hnoise, rfl, rfl, hrest⟩

/-- If no noise is next, the first notice that a loop takes is none. -/
theorem not_isNoise_of_noiseAhead {notice : Notice} {rest : List Notice}
    (h : l.noiseAhead plan = 0) (hphase : l.phase = .waiting) (hc : l.cancelled = false)
    (hqueue : l.queue = notice :: rest) : notice.isNoise plan.scope.ignore = false := by
  rw [noiseAhead, hphase] at h
  dsimp only at h
  rw [hc, if_neg Bool.false_ne_true, hqueue, List.takeWhile_cons] at h
  cases hnoise : notice.isNoise plan.scope.ignore with
  | false => rfl
  | true => simp [hnoise] at h

/-- If no noise is next, only its coming concerns noise. -/
theorem concernsNoise_eq (h : l.noiseAhead plan = 0) :
    l.concernsNoise plan m = m.isNoise plan.scope.ignore := by
  cases m with
  | outside stimulus => rfl
  | turn fs =>
    rw [concernsNoise, h]
    rfl

namespace Hushes

theorem stop (h : l.Hushes plan l') :
    l.stop.1.Hushes plan l'.stop.1 ∧ l.stop.2 = l'.stop.2 := by
  obtain ⟨i, hi, rfl⟩ := h
  rw [Loop.stop, Loop.stop, hi.burst]
  exact ⟨⟨{ i with burst := i.burst.cleared }, ⟨hi.coverage, rfl, hi.dirty⟩, rfl⟩, rfl⟩

/-- What comes from outside comes to both, unless it is noise. -/
theorem perform (h : l.Hushes plan l') {stimulus : Stimulus}
    (hm : (Move.outside stimulus).isNoise plan.scope.ignore = false) :
    (l.perform plan stimulus).1.Hushes plan (l'.perform plan stimulus).1 ∧
      (l.perform plan stimulus).2.filter (fun r => !r.isNoise plan.scope.ignore) =
        (l'.perform plan stimulus).2 := by
  obtain ⟨i, hi, rfl⟩ := h
  cases stimulus with
  | arrive notice =>
    have hnotice : notice.isNoise plan.scope.ignore = false := hm
    rw [Loop.perform, Loop.perform]
    dsimp only
    split
    · exact ⟨⟨i, hi, rfl⟩, rfl⟩
    · refine ⟨⟨i, hi, ?_⟩, rfl⟩
      rw [List.filter_append, List.filter_singleton, hnotice]
      rfl
  | close | cancel | advance => exact ⟨⟨i, hi, rfl⟩, rfl⟩
  | answer accepted =>
    rw [Loop.perform, Loop.perform]
    dsimp only
    split
    · split
      · exact ⟨⟨i, hi, rfl⟩, rfl⟩
      · exact ⟨⟨_, hi.conclude accepted, rfl⟩, rfl⟩
    · exact ⟨⟨i, hi, rfl⟩, rfl⟩

/-- Both take the same turn if no noise is next. -/
theorem turn (h : l.Hushes plan l') (hahead : l.noiseAhead plan = 0) :
    (l.move plan (.turn fs)).1.Hushes plan (l'.move plan (.turn fs)).1 ∧
      (l.move plan (.turn fs)).2.filter (fun r => !r.isNoise plan.scope.ignore) =
        (l'.move plan (.turn fs)).2 := by
  have hstop := h.stop
  obtain ⟨i₀, queue, closed, cancelled, phase, clock⟩ := l
  obtain ⟨i, hi, rfl⟩ := h
  cases phase with
  | stopped => exact ⟨⟨i, hi, rfl⟩, rfl⟩
  | delivering handover =>
    cases cancelled with
    | false => exact ⟨⟨i, hi, rfl⟩, rfl⟩
    | true => exact ⟨hstop.1, congrArg (List.cons (Record.abandoned handover)) hstop.2⟩
  | waiting =>
    cases cancelled with
    | true => exact hstop
    | false =>
      cases queue with
      | cons notice rest =>
        -- The first notice is no noise, so the other loop takes the same one.
        have hnotice := not_isNoise_of_noiseAhead hahead rfl rfl rfl
        obtain ⟨hhandle, hqueued⟩ := hi.handle plan fs clock notice
        have hqueue : (notice :: rest).filter (fun n => !n.isNoise plan.scope.ignore) =
            notice :: rest.filter fun n => !n.isNoise plan.scope.ignore := by simp [hnotice]
        simp only [move, Loop.turn, hqueue, hqueued]
        exact ⟨⟨_, hhandle, rfl⟩, by simp [Record.isNoise, hnotice]⟩
      | nil =>
        cases closed with
        | true => exact hstop
        | false =>
          obtain ⟨hflush, hhandover⟩ := hi.flush plan fs clock
          have hdue : i₀.burst.isDue clock = i.burst.isDue clock := by rw [hi.burst]
          simp only [move, Loop.turn, List.filter_nil, Bool.false_eq_true, if_false, hdue]
          split
          · generalize i₀.flush plan fs clock = after₀ at hflush hhandover ⊢
            generalize i.flush plan fs clock = after at hflush hhandover ⊢
            obtain ⟨j₀, handover?⟩ := after₀
            obtain ⟨j, _⟩ := after
            obtain rfl : handover? = _ := hhandover
            cases handover? <;> exact ⟨⟨j, hflush, rfl⟩, rfl⟩
          · exact ⟨⟨i, hi, rfl⟩, rfl⟩

/-- Noise comes to the one loop and is handled there, and the other does nothing. -/
theorem noise (h : l.Hushes plan l') (hm : l.concernsNoise plan m = true) :
    (l.move plan m).1.Hushes plan l' ∧
      (l.move plan m).2.filter (fun r => !r.isNoise plan.scope.ignore) = [] := by
  cases m with
  | outside stimulus =>
    cases stimulus with
    | arrive notice =>
      have hnotice : notice.isNoise plan.scope.ignore = true := hm
      obtain ⟨i, hi, rfl⟩ := h
      rw [move, Loop.perform]
      split
      · exact ⟨⟨i, hi, rfl⟩, rfl⟩
      · refine ⟨⟨i, hi, ?_⟩, rfl⟩
        simp [hnotice]
    | _ => cases hm
  | turn fs =>
    obtain ⟨n, hn⟩ := Nat.exists_eq_succ_of_ne_zero (Nat.pos_iff_ne_zero.mp (of_decide_eq_true hm))
    obtain ⟨notice, rest, hnotice, hqueue, hmove, -⟩ := noiseAhead_eq_succ fs hn
    obtain ⟨i, hi, rfl⟩ := h
    rw [hmove]
    refine ⟨⟨i, (hi.handle_noise hnotice).1, ?_⟩, by simp [Record.isNoise, hnotice]⟩
    simp [hqueue, hnotice]

/-- Every other move is made by both. -/
theorem step (h : l.Hushes plan l') (hm : l.concernsNoise plan m = false) :
    (l.move plan m).1.Hushes plan (l'.move plan m).1 ∧
      (l.move plan m).2.filter (fun r => !r.isNoise plan.scope.ignore) = (l'.move plan m).2 := by
  cases m with
  | outside stimulus => exact h.perform hm
  | turn fs => exact h.turn (Nat.eq_zero_of_not_pos (of_decide_eq_false hm))

end Hushes

/-! ### Leaving noise out of a run -/

/-- The run without the moves by which noise comes or is handled. -/
def withoutNoise (plan : Plan) (l : Loop) : List Move → List Move
  | [] => []
  | m :: ms =>
    if l.concernsNoise plan m then withoutNoise plan (l.move plan m).1 ms
    else m :: withoutNoise plan (l.move plan m).1 ms

theorem Hushes.run (h : l.Hushes plan l') (ms : List Move) :
    (l.run plan ms).1.Hushes plan (l'.run plan (l.withoutNoise plan ms)).1 ∧
      (l.run plan ms).2.filter (fun r => !r.isNoise plan.scope.ignore) =
        (l'.run plan (l.withoutNoise plan ms)).2 := by
  induction ms generalizing l l' with
  | nil => exact ⟨h, rfl⟩
  | cons m ms ih =>
    rw [withoutNoise, run_cons]
    dsimp only
    rw [List.filter_append]
    split
    · next hm =>
      obtain ⟨hafter, hrecords⟩ := h.noise hm
      obtain ⟨hrest, hrecords'⟩ := ih hafter
      exact ⟨hrest, by rw [hrecords, hrecords', List.nil_append]⟩
    · next hm =>
      obtain ⟨hafter, hrecords⟩ := h.step (by simpa using hm)
      obtain ⟨hrest, hrecords'⟩ := ih hafter
      exact ⟨hrest, by rw [hrecords, hrecords', run_cons]⟩

/-! ### Adding noise to a run -/

/-- A turn for each notice that is noise and that is next. -/
def noiseTurns (plan : Plan) (fs : FileSystem) (l : Loop) : List Move :=
  List.replicate (l.noiseAhead plan) (.turn fs)

/-- The run with turns put in wherever noise is next: it is handled at once, and finds the file
system like `fs`. -/
def catchUp (plan : Plan) (fs : FileSystem) (l : Loop) : List Move → List Move
  | [] => []
  | m :: ms =>
    let turns := (l.move plan m).1.noiseTurns plan fs
    m :: turns ++ catchUp plan fs ((l.move plan m).1.run plan turns).1 ms

/-- Turns for the noise that is next concern noise only, and leave none. -/
theorem withoutNoise_noiseTurns (plan : Plan) (fs : FileSystem) (l : Loop) (rest : List Move) :
    l.withoutNoise plan (l.noiseTurns plan fs ++ rest) =
        (l.run plan (l.noiseTurns plan fs)).1.withoutNoise plan rest ∧
      (l.run plan (l.noiseTurns plan fs)).1.noiseAhead plan = 0 := by
  unfold noiseTurns
  generalize hn : l.noiseAhead plan = n
  induction n generalizing l with
  | zero => exact ⟨rfl, hn⟩
  | succ n ih =>
    obtain ⟨-, -, -, -, -, hrest⟩ := noiseAhead_eq_succ fs hn
    have hconcerns : l.concernsNoise plan (.turn fs) = true := decide_eq_true (hn ▸ Nat.succ_pos n)
    rw [List.replicate_succ, List.cons_append, withoutNoise, if_pos hconcerns, run_cons]
    exact ih _ hrest

/-- The turns that were put in are the ones that are left out. -/
theorem withoutNoise_catchUp (fs : FileSystem) (h : l.noiseAhead plan = 0) (schedule : List Move) :
    l.withoutNoise plan (l.catchUp plan fs schedule) =
      schedule.filter fun m => !m.isNoise plan.scope.ignore := by
  induction schedule generalizing l with
  | nil => rfl
  | cons m ms ih =>
    obtain ⟨hturns, hahead⟩ := withoutNoise_noiseTurns plan fs (l.move plan m).1
      (catchUp plan fs ((l.move plan m).1.run plan ((l.move plan m).1.noiseTurns plan fs)).1 ms)
    rw [catchUp, List.cons_append, withoutNoise, hturns, ih hahead, concernsNoise_eq h]
    cases hm : m.isNoise plan.scope.ignore <;> simp [hm]

/-- An error that comes while the notifier has a batch is handled once the notifier has answered. -/
example (plan : Plan) (coverage : Coverage) (fs : FileSystem) :
    catchUp plan fs { start plan coverage with phase := .delivering ⟨[], [], 0⟩ }
        [.outside (.arrive (.fault "")), .outside (.advance 5), .outside (.answer true)] =
      [.outside (.arrive (.fault "")), .outside (.advance 5), .outside (.answer true), .turn fs] :=
  rfl

/-- Once the noise that is next was handled, the other loop has done nothing. -/
theorem Hushes.caughtUp (h : l.Hushes plan l') (fs : FileSystem) :
    (l.run plan (l.noiseTurns plan fs)).1.Hushes plan l' := by
  -- Of these turns none is left when the noise is left out.
  have hrun := (h.run (l.noiseTurns plan fs)).1
  have hnone := (withoutNoise_noiseTurns plan fs l []).1
  rw [List.append_nil] at hnone
  rwa [hnone] at hrun

/-- If no noise is next, the one loop is at rest where the other is. -/
theorem Hushes.isPrompt (h : l.Hushes plan l') (hahead : l.noiseAhead plan = 0)
    (hprompt : l'.IsPrompt plan m) : l.IsPrompt plan m := by
  intro k hk
  have hrests := atRest_iff.mp (hprompt k hk)
  refine atRest_iff.mpr ?_
  obtain ⟨i₀, queue, closed, cancelled, phase, clock⟩ := l
  obtain ⟨i, hi, rfl⟩ := h
  cases phase with
  | stopped | delivering => exact hrests
  | waiting =>
    have hburst : i₀.burst = i.burst := hi.burst
    simp only [rests, hburst, Bool.and_eq_true, decide_eq_true_eq, Bool.not_eq_true'] at hrests ⊢
    obtain ⟨⟨⟨hcancelled, hqueue⟩, hclosed⟩, hdue⟩ := hrests
    refine ⟨⟨⟨hcancelled, ?_⟩, hclosed⟩, hdue⟩
    -- The other loop has nothing to handle, so here there is at most noise, but none is next.
    cases queue with
    | nil => rfl
    | cons notice rest =>
      have hnotice := not_isNoise_of_noiseAhead hahead rfl hcancelled rfl
      simp [hnotice] at hqueue

theorem isPrompt_turn (l : Loop) (fs : FileSystem) : l.IsPrompt plan (.turn fs) := fun k hk =>
  absurd hk (Nat.not_lt_zero k)

theorem along_replicate_turn (l : Loop) (fs : FileSystem) (n : Nat) :
    l.Along plan (IsPrompt plan) (List.replicate n (.turn fs)) := by
  induction n generalizing l with
  | zero => trivial
  | succ n ih => exact ⟨isPrompt_turn l fs, ih _⟩

/-- With noise that is handled at once a prompt run stays prompt. -/
theorem along_catchUp (fs : FileSystem) (h : l.Hushes plan l') (hahead : l.noiseAhead plan = 0)
    (schedule : List Move)
    (hprompt : l'.Along plan (IsPrompt plan)
      (schedule.filter fun m => !m.isNoise plan.scope.ignore)) :
    l.Along plan (IsPrompt plan) (l.catchUp plan fs schedule) := by
  induction schedule generalizing l l' with
  | nil => trivial
  | cons m ms ih =>
    have hahead' := (withoutNoise_noiseTurns plan fs (l.move plan m).1 []).2
    -- What is left to show for either kind of move: the move is prompt, and the rest is.
    have hcons : ∀ {l'' : Loop}, l.IsPrompt plan m → (l.move plan m).1.Hushes plan l'' →
        l''.Along plan (IsPrompt plan) (ms.filter fun m => !m.isNoise plan.scope.ignore) →
        l.Along plan (IsPrompt plan) (l.catchUp plan fs (m :: ms)) := fun hm hafter hrest =>
      ⟨hm, along_append.mpr
        ⟨along_replicate_turn _ fs _, ih (hafter.caughtUp fs) hahead' hrest⟩⟩
    cases hm : m.isNoise plan.scope.ignore with
    | true =>
      have hconcerns := (concernsNoise_eq hahead).trans hm
      rw [List.filter_cons_of_neg (by simp [hm])] at hprompt
      refine hcons (fun k hk => ?_) (h.noise hconcerns).1 hprompt
      -- No time passes as noise comes.
      cases m with
      | turn fs' => cases hm
      | outside stimulus =>
        cases stimulus with
        | arrive notice => exact absurd hk (Nat.not_lt_zero k)
        | _ => cases hm
    | false =>
      have hconcerns := (concernsNoise_eq hahead).trans hm
      rw [List.filter_cons_of_pos (by simp [hm])] at hprompt
      exact hcons (h.isPrompt hahead hprompt.1) (h.step hconcerns).1 hprompt.2

/-- Two runs come to the same: the same was handed over at the same times, the same is registered,
pending and due, and the same was counted but for ignored changes and errors. -/
structure Indistinct (after after' : Loop × List Record) : Prop where
  intake : after.1.intake.Agrees after'.1.intake
  phase : after.1.phase = after'.1.phase
  clock : after.1.clock = after'.1.clock
  handovers : after.2.filterMap Record.handover? = after'.2.filterMap Record.handover?

theorem Hushes.indistinct (h : l.Hushes plan l') (ms : List Move) :
    Indistinct (l.run plan ms) (l'.run plan (l.withoutNoise plan ms)) := by
  obtain ⟨⟨i, hi, hafter⟩, hrecords⟩ := h.run ms
  refine ⟨by rw [hafter]; exact hi, by rw [hafter], by rw [hafter], ?_⟩
  rw [← hrecords, List.filterMap_filter]
  refine List.filterMap_congr fun r _ => ?_
  cases r <;> simp [Record.isNoise, Record.handover?]

theorem hushes_start (plan : Plan) (coverage : Coverage) :
    (start plan coverage).Hushes plan (start plan coverage) :=
  ⟨(start plan coverage).intake, ⟨.refl coverage, rfl, rfl⟩, rfl⟩

/-- **Noise influences nothing.** A run comes to the same without the noise in it, whenever that
came and was handled. And noise may be put into a schedule anywhere: if it is handled at once, or as
soon as the loop waits again and has handled what came before, then the run comes to the same, and
it is prompt if it was so without the noise. -/
theorem noise_run (plan : Plan) (coverage : Coverage) :
    (∀ ms, Indistinct ((start plan coverage).run plan ms)
      ((start plan coverage).run plan ((start plan coverage).withoutNoise plan ms))) ∧
    ∀ fs schedule,
      let quiet := schedule.filter fun m => !m.isNoise plan.scope.ignore
      let noisy := (start plan coverage).catchUp plan fs schedule
      Indistinct ((start plan coverage).run plan noisy) ((start plan coverage).run plan quiet) ∧
        ((start plan coverage).Along plan (IsPrompt plan) quiet →
          (start plan coverage).Along plan (IsPrompt plan) noisy) := by
  have hstart := hushes_start plan coverage
  refine ⟨hstart.indistinct, fun fs schedule => ⟨?_, along_catchUp fs hstart rfl schedule⟩⟩
  have hindistinct := hstart.indistinct ((start plan coverage).catchUp plan fs schedule)
  rwa [withoutNoise_catchUp fs rfl] at hindistinct

end Loop

end WorkspaceWatch
