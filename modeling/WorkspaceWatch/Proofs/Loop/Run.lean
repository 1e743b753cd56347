import WorkspaceWatch.Watch.Loop

/-!
# Runs of the event loop

A **run** is a list of moves. A move is a stimulus from outside or a turn of the loop, and a turn
sees the file system as it is at that moment, which nothing ties to what it was before. So a run
knows every latency of the notifier, every schedule and every change of the tree.

* `Loop.Step` says what one move does, case by case; `Loop.step_move` is the only place where the
  definition of a turn is opened.
* `Loop.invariant_run` carries a property of the loop from each step to whole runs.
* The records of a run are read by the functions in the namespace `Record`: what was queued, what
  was carried to the notifier, what was dropped, which notices were handled.
-/

namespace WorkspaceWatch

/-- One move of a run. -/
inductive Move where
  /-- Something comes from outside. -/
  | outside (stimulus : Stimulus)
  /-- The loop takes a turn and finds the file system like this. -/
  | turn (fs : FileSystem)

/-- The milliseconds that pass with a move. -/
def Move.elapsed : Move → Nat
  | .outside (.advance milliseconds) => milliseconds
  | _ => 0

namespace Record

/-- The changes that were queued when a notice was handled. -/
def gathered : Record → List Change
  | .handled _ queued _ => queued
  | _ => []

/-- The queued changes that were carried to the notifier. -/
def carried : Record → List Change
  | .handed handover => handover.queued
  | _ => []

/-- The changes that were dropped at the end. -/
def discarded : Record → List Change
  | .dropped changes => changes
  | _ => []

/-- The notice that was handled. -/
def notice? : Record → Option Notice
  | .handled notice _ _ => some notice
  | _ => none

/-- What was handed to the notifier. -/
def handover? : Record → Option Handover
  | .handed handover => some handover
  | _ => none

/-- What the notifier has answered, or will never answer. -/
def ended? : Record → Option Handover
  | .concluded handover _ => some handover
  | .abandoned handover => some handover
  | _ => none

/-- The loop came to its end. -/
def IsLast : Record → Prop
  | .abandoned _ => True
  | .dropped _ => True
  | _ => False

end Record

namespace Loop

variable {plan : Plan} {l : Loop} {m : Move} {after : Loop × List Record}

/-- The changes that are queued and not yet handed over. -/
def pending (l : Loop) : List Change := l.intake.burst.pending

/-- The loop makes a move. A turn with nothing to do changes nothing. -/
def move (plan : Plan) (l : Loop) : Move → Loop × List Record
  | .outside stimulus => l.perform plan stimulus
  | .turn fs => (l.turn plan fs).getD (l, [])

/-- The loop makes moves in order. -/
def run (plan : Plan) (l : Loop) : List Move → Loop × List Record
  | [] => (l, [])
  | m :: ms =>
    let (l', records) := l.move plan m
    let (l'', records') := run plan l' ms
    (l'', records ++ records')

/-- The notices that a move adds to the queue. -/
def admitted (l : Loop) : Move → List Notice
  | .outside (.arrive notice) => if l.closed ∨ l.cancelled then [] else [notice]
  | _ => []

/-- The notices that a run adds to the queue, in the order of their arrival. -/
def arrivals (plan : Plan) (l : Loop) : List Move → List Notice
  | [] => []
  | m :: ms => l.admitted m ++ arrivals plan (l.move plan m).1 ms

/-! ### One step -/

/-- What one move does to the loop. -/
inductive Step (plan : Plan) (l : Loop) : Move → Loop × List Record → Prop
  /-- Something comes from outside that the loop will find when it takes a turn. -/
  | came {stimulus : Stimulus} {l' : Loop} (intake : l'.intake = l.intake)
      (phase : l'.phase = l.phase) (queue : l'.queue = l.queue ++ l.admitted (.outside stimulus))
      (cancelled : l.cancelled = true → l'.cancelled = true)
      (closed : l.closed = true → l'.closed = true)
      (clock : l'.clock = l.clock + (Move.outside stimulus).elapsed) :
      Step plan l (.outside stimulus) (l', [])
  /-- The loop has stopped. -/
  | finished {fs : FileSystem} (phase : l.phase = .stopped) : Step plan l (.turn fs) (l, [])
  /-- The loop waits for the notifier's answer. -/
  | busy {fs : FileSystem} {handover : Handover} (phase : l.phase = .delivering handover)
      (cancelled : l.cancelled = false) : Step plan l (.turn fs) (l, [])
  /-- The loop waits for a notice or for the burst to close. -/
  | idle {fs : FileSystem} (phase : l.phase = .waiting) (cancelled : l.cancelled = false)
      (queue : l.queue = []) (closed : l.closed = false)
      (due : l.intake.burst.isDue l.clock = false) : Step plan l (.turn fs) (l, [])
  /-- The first notice of the queue is handled. -/
  | handled {fs : FileSystem} {notice : Notice} {rest : List Notice} (phase : l.phase = .waiting)
      (cancelled : l.cancelled = false) (queue : l.queue = notice :: rest) :
      Step plan l (.turn fs)
        ({ l with intake := (l.intake.handle plan fs l.clock notice).1, queue := rest },
          [.handled notice (l.intake.handle plan fs l.clock notice).2 l.clock])
  /-- The burst closes with nothing to hand over. -/
  | flushed {fs : FileSystem} {intake : Intake} (phase : l.phase = .waiting)
      (cancelled : l.cancelled = false) (queue : l.queue = [])
      (due : l.intake.burst.isDue l.clock = true)
      (flush : l.intake.flush plan fs l.clock = (intake, none)) (closed : l.closed = false) :
      Step plan l (.turn fs) ({ l with intake }, [])
  /-- The burst closes and a batch is handed over. -/
  | handed {fs : FileSystem} {intake : Intake} {handover : Handover} (phase : l.phase = .waiting)
      (cancelled : l.cancelled = false) (queue : l.queue = [])
      (due : l.intake.burst.isDue l.clock = true)
      (flush : l.intake.flush plan fs l.clock = (intake, some handover))
      (closed : l.closed = false) :
      Step plan l (.turn fs)
        ({ l with intake, phase := .delivering handover }, [.handed handover])
  /-- The notifier answers. -/
  | concluded {handover : Handover} {accepted : Bool} (phase : l.phase = .delivering handover)
      (cancelled : l.cancelled = false) :
      Step plan l (.outside (.answer accepted))
        ({ l with intake := l.intake.conclude plan accepted, phase := .waiting },
          [.concluded handover accepted])
  /-- The loop stops while it waits. -/
  | stopped {fs : FileSystem} (phase : l.phase = .waiting)
      (ended : l.cancelled = true ∨ l.queue = [] ∧ l.closed = true) :
      Step plan l (.turn fs) l.stop
  /-- The loop stops while the notifier has a batch. -/
  | abandoned {fs : FileSystem} {handover : Handover} (phase : l.phase = .delivering handover)
      (cancelled : l.cancelled = true) :
      Step plan l (.turn fs) (l.stop.1, .abandoned handover :: l.stop.2)

private theorem step_perform (stimulus : Stimulus) :
    Step plan l (.outside stimulus) (l.perform plan stimulus) := by
  cases stimulus with
  | arrive notice =>
    by_cases h : l.closed = true ∨ l.cancelled = true
    · rw [perform, if_pos h]
      exact .came rfl rfl (by simp [admitted, h]) id id rfl
    · rw [perform, if_neg h]
      exact .came rfl rfl (by simp [admitted, h]) id id rfl
  | close => exact .came rfl rfl (by simp [admitted]) id (fun _ => rfl) rfl
  | cancel => exact .came rfl rfl (by simp [admitted]) (fun _ => rfl) id rfl
  | advance milliseconds => exact .came rfl rfl (by simp [admitted]) id id rfl
  | answer accepted =>
    rw [perform]
    split
    · next handover hphase =>
      by_cases hc : l.cancelled = true
      · rw [if_pos hc]
        exact .came rfl rfl (by simp [admitted]) id id rfl
      · rw [if_neg hc]
        exact .concluded hphase (by simpa using hc)
    · exact .came rfl rfl (by simp [admitted]) id id rfl

private theorem step_turn (fs : FileSystem) :
    Step plan l (.turn fs) ((l.turn plan fs).getD (l, [])) := by
  rw [turn]
  split
  · next hphase => exact .finished hphase
  · next handover hphase =>
    by_cases hc : l.cancelled = true
    · rw [if_pos hc]
      exact .abandoned hphase hc
    · rw [if_neg hc]
      exact .busy hphase (by simpa using hc)
  · next hphase =>
    by_cases hc : l.cancelled = true
    · rw [if_pos hc]
      exact .stopped hphase (.inl hc)
    · rw [if_neg hc]
      have hc : l.cancelled = false := by simpa using hc
      split
      · next notice rest hqueue => exact .handled hphase hc hqueue
      · next hqueue =>
        by_cases hclosed : l.closed = true
        · rw [if_pos hclosed]
          exact .stopped hphase (.inr ⟨hqueue, hclosed⟩)
        · rw [if_neg hclosed]
          by_cases hdue : l.intake.burst.isDue l.clock = true
          · rw [if_pos hdue]
            have hopen : l.closed = false := by simpa using hclosed
            split
            · next intake hflush => exact .flushed hphase hc hqueue hdue hflush hopen
            · next intake handover hflush => exact .handed hphase hc hqueue hdue hflush hopen
          · rw [if_neg hdue]
            exact .idle hphase hc hqueue (by simpa using hclosed) (by simpa using hdue)

/-- Every move is one of the steps. -/
theorem step_move (plan : Plan) (l : Loop) (m : Move) : Step plan l m (l.move plan m) := by
  cases m with
  | outside stimulus => exact step_perform stimulus
  | turn fs => exact step_turn fs

/-! ### Whole runs -/

@[simp] theorem run_nil (plan : Plan) (l : Loop) : l.run plan [] = (l, []) := rfl

@[simp] theorem run_cons (plan : Plan) (l : Loop) (m : Move) (ms : List Move) :
    l.run plan (m :: ms) =
      (((l.move plan m).1.run plan ms).1, (l.move plan m).2 ++ ((l.move plan m).1.run plan ms).2) :=
  rfl

theorem run_append (plan : Plan) (l : Loop) (ms ms' : List Move) :
    l.run plan (ms ++ ms') =
      (((l.run plan ms).1.run plan ms').1,
        (l.run plan ms).2 ++ ((l.run plan ms).1.run plan ms').2) := by
  induction ms generalizing l with
  | nil => rfl
  | cons m ms ih => rw [List.cons_append, run_cons, ih, run_cons, List.append_assoc]

/-- Every step of a run is as `P` says. -/
def Along (plan : Plan) (P : Loop → Move → Prop) (l : Loop) : List Move → Prop
  | [] => True
  | m :: ms => P l m ∧ Along plan P (l.move plan m).1 ms

theorem along_append {P : Loop → Move → Prop} {ms ms' : List Move} :
    l.Along plan P (ms ++ ms') ↔
      l.Along plan P ms ∧ (l.run plan ms).1.Along plan P ms' := by
  induction ms generalizing l with
  | nil => simp [Along]
  | cons m ms ih => rw [List.cons_append, Along, ih, Along, run_cons, and_assoc]

theorem Along.imp {P Q : Loop → Move → Prop} {ms : List Move} (h : ∀ l m, P l m → Q l m)
    (hP : l.Along plan P ms) : l.Along plan Q ms := by
  induction ms generalizing l with
  | nil => trivial
  | cons m ms ih => exact ⟨h l m hP.1, ih hP.2⟩

instance decidableAlong {P : Loop → Move → Prop} [∀ l m, Decidable (P l m)] :
    ∀ (l : Loop) (ms : List Move), Decidable (l.Along plan P ms)
  | _, [] => inferInstanceAs (Decidable True)
  | l, m :: ms => @instDecidableAnd _ _ _ (decidableAlong (l.move plan m).1 ms)

/-- `P` was the case at some step of a run, and `Q` at none since. -/
def Since (plan : Plan) (P Q : Loop → Move → Prop) (l : Loop) (ms : List Move) : Prop :=
  ∃ earlier m later, ms = earlier ++ m :: later ∧ P (l.run plan earlier).1 m ∧
    ((l.run plan earlier).1.move plan m).1.Along plan (fun l m => ¬Q l m) later

theorem not_since_nil {P Q : Loop → Move → Prop} : ¬l.Since plan P Q [] := by
  rintro ⟨earlier, m, later, hms, -⟩
  exact absurd hms.symm (by simp)

theorem not_since_of_along {P Q : Loop → Move → Prop} {ms : List Move}
    (h : l.Along plan (fun l m => ¬P l m) ms) : ¬l.Since plan P Q ms := by
  rintro ⟨earlier, m, later, rfl, hP, -⟩
  exact (along_append.mp h).2.1 hP

theorem Since.imp {P P' Q Q' : Loop → Move → Prop} {ms : List Move} (h : l.Since plan P Q ms)
    (hP : ∀ l m, P l m → P' l m) (hQ : ∀ l m, Q' l m → Q l m) : l.Since plan P' Q' ms := by
  obtain ⟨earlier, m, later, hms, hm, hlater⟩ := h
  exact ⟨earlier, m, later, hms, hP _ _ hm, hlater.imp fun l m => mt (hQ l m)⟩

/-- One more step may be one at which `P` is the case, or leave it at that unless `Q` is. -/
theorem since_concat {P Q : Loop → Move → Prop} {ms : List Move} :
    l.Since plan P Q (ms ++ [m]) ↔
      P (l.run plan ms).1 m ∨ l.Since plan P Q ms ∧ ¬Q (l.run plan ms).1 m := by
  constructor
  · rintro ⟨earlier, m', later, hms, hP, hQ⟩
    rcases List.eq_nil_or_concat later with rfl | ⟨later, m'', rfl⟩
    · obtain ⟨rfl, hm⟩ := List.append_inj' hms rfl
      obtain rfl := List.singleton_inj.mp hm
      exact .inl hP
    · rw [List.concat_eq_append] at hms hQ
      rw [← List.cons_append, ← List.append_assoc] at hms
      obtain ⟨rfl, hm⟩ := List.append_inj' hms rfl
      obtain rfl := List.singleton_inj.mp hm
      obtain ⟨hQ, hlast, -⟩ := along_append.mp hQ
      refine .inr ⟨⟨earlier, m', later, rfl, hP, hQ⟩, ?_⟩
      rwa [run_append, run_cons]
  · rintro (hP | ⟨⟨earlier, m', later, rfl, hP, hQ⟩, hlast⟩)
    · exact ⟨ms, m, [], rfl, hP, trivial⟩
    · rw [run_append, run_cons] at hlast
      exact ⟨earlier, m', later ++ [m], by simp, hP, along_append.mpr ⟨hQ, hlast, trivial⟩⟩

/-- What every step keeps, every run keeps. -/
theorem invariant_run (Inv : Loop → Prop)
    (step : ∀ {l : Loop} {m : Move} {after : Loop × List Record}, Step plan l m after → Inv l →
      Inv after.1)
    (ms : List Move) {l : Loop} (h : Inv l) : Inv (l.run plan ms).1 := by
  induction ms generalizing l with
  | nil => exact h
  | cons m ms ih => exact ih (step (step_move plan l m) h)

private theorem Step.of_stopped (h : Step plan l m after) (hphase : l.phase = .stopped) :
    after.1.phase = .stopped ∧ after.1.intake = l.intake ∧ after.2 = [] := by
  cases h with
  | came intake phase => exact ⟨phase.trans hphase, intake, rfl⟩
  | finished => exact ⟨hphase, rfl, rfl⟩
  | busy | idle => exact ⟨hphase, rfl, rfl⟩
  | handled phase | flushed phase | handed phase | concluded phase | stopped phase
  | abandoned phase =>
    rw [hphase] at phase
    cases phase

/-- A loop that has stopped does nothing any more. -/
theorem run_of_stopped (plan : Plan) (h : l.phase = .stopped) (ms : List Move) :
    (l.run plan ms).1.phase = .stopped ∧ (l.run plan ms).1.intake = l.intake ∧
      (l.run plan ms).2 = [] := by
  induction ms generalizing l with
  | nil => exact ⟨h, rfl, rfl⟩
  | cons m ms ih =>
    obtain ⟨hphase, hintake, hnone⟩ := (step_move plan l m).of_stopped h
    obtain ⟨hphase', hintake', hnone'⟩ := ih hphase
    exact ⟨hphase', hintake'.trans hintake, by simp [hnone, hnone']⟩

end Loop

end WorkspaceWatch
