import Mathlib.Algebra.GroupWithZero.Nat
import WorkspaceWatch.Proofs.Loop.Quiet
import WorkspaceWatch.Proofs.Loop.Reconvergence

/-!
# The counters tell what happened

Nothing that a watch swallows is lost to its counters. How far they move is said for each thing that
can be done to them (`Tally.Moves`): absorbing a change counts it as observed or as ignored, a
notice that tells of an error counts once more, and the notifier's answer counts as a delivery or as
a failure. Nothing else that the loop does moves them (`Loop.Step.moves`).

So the counters can be read off from what a run has handled (`Loop.moves_run`). Together with the
conservation of changes this relates them to the batches: `Loop.counts_run`. Counters wrap around,
so all that is said of them is said modulo `2 ^ 64`.
-/

namespace WorkspaceWatch

/-- Word came that watching failed. -/
def Notice.isFault : Notice → Bool
  | .signal _ => false
  | .fault _ => true

/-- The changes that a notice is read as, as the file system is now. -/
def Notice.changes (fs : FileSystem) : Notice → List Change
  | .signal s => s.changes fs
  | .fault _ => []

/-- How often a notice is counted as an error. -/
def Notice.errors (notice : Notice) : Nat :=
  notice.isFault.toNat + notice.reportsLoss.toNat

/-- The files that were reported again. -/
def Record.reported : Record → List Change
  | .handed handover => handover.reported
  | _ => []

/-! ### Moving the counters -/

/-- On the way from one tally to the other so many changes were observed and ignored, so many
batches were delivered and rejected, and there were so many errors. -/
structure Tally.Moves (t t' : Tally) (observed ignored delivered rejected errors : Nat) : Prop where
  observed : t'.eventsObserved = t.eventsObserved + .ofNat observed
  ignored : t'.eventsIgnored = t.eventsIgnored + .ofNat ignored
  delivered : t'.batchesDelivered = t.batchesDelivered + .ofNat delivered
  rejected : t'.notifyFailures = t.notifyFailures + .ofNat rejected
  errors : t'.observationErrors = t.observationErrors + .ofNat errors

namespace Tally

variable {t t' t'' : Tally} {o i d r e o' i' d' r' e' : Nat}

theorem Moves.refl (t : Tally) : t.Moves t 0 0 0 0 0 := by
  constructor <;> simp

theorem Moves.trans (h : t.Moves t' o i d r e) (h' : t'.Moves t'' o' i' d' r' e') :
    t.Moves t'' (o + o') (i + i') (d + d') (r + r') (e + e') := by
  constructor
  · rw [h'.observed, h.observed, UInt64.ofNat_add, UInt64.add_assoc]
  · rw [h'.ignored, h.ignored, UInt64.ofNat_add, UInt64.add_assoc]
  · rw [h'.delivered, h.delivered, UInt64.ofNat_add, UInt64.add_assoc]
  · rw [h'.rejected, h.rejected, UInt64.ofNat_add, UInt64.add_assoc]
  · rw [h'.errors, h.errors, UInt64.ofNat_add, UInt64.add_assoc]

/-- Registering and forgetting directories is not what these counters tell of. -/
theorem Moves.registered (h : t.Moves t' o i d r e) (failures directories : UInt64) :
    t.Moves { t' with registrationFailures := failures, directoriesRegistered := directories }
      o i d r e :=
  ⟨h.observed, h.ignored, h.delivered, h.rejected, h.errors⟩

end Tally

namespace Coverage

theorem tally_unregister (c : Coverage) (dir : Path) : (c.unregister dir).1.tally = c.tally := by
  rw [unregister, foldl_unwatch]

/-- Registering a directory that has appeared moves none but the two counters that are about
directories. -/
theorem tally_registerCreated (fs : FileSystem) (scope : Scope) (policy : Backend.Policy)
    (c : Coverage) (dir : Path) : ∃ failures directories,
    (c.registerCreated fs scope policy dir).1.tally =
      { c.tally with
        registrationFailures := failures
        directoriesRegistered := directories } := by
  have htally := (grew_walk fs scope policy false c dir).2
  rw [registerCreated, ← htally]
  dsimp only
  rw [Walk.account]
  split <;> split <;> exact ⟨_, _, rfl⟩

end Coverage

/-! ### Taking in notices -/

namespace Intake

variable (plan : Plan) (fs : FileSystem)

/-- The entries that are found in the directory whose appearance a change tells of. -/
def found (c : Coverage) (change : Change) : List Path :=
  if plan.scope.ignore.ignores change.path then []
  else if change.kind = .created ∧ plan.scope.enters fs change.path then
    ((c.record .eventObserved).registerCreated fs plan.scope plan.policy change.path).2
  else []

/-- The entries that are found for changes in their order, each met by the coverage that the ones
before it have left. -/
def foundAll (c : Coverage) : List Change → List Path
  | [] => []
  | change :: rest => found plan fs c change ++ foundAll (absorb plan fs c change).1 rest

/-- The entries that are found when a notice is handled. -/
def findings (now : Nat) (i : Intake) : Notice → List Path
  | .fault _ => []
  | .signal s =>
    foundAll plan fs (if s.rescan then i.noteLoss plan now else i).coverage (s.changes fs)

/-- The change is not ignored. -/
def shows (change : Change) : Bool := !plan.scope.ignore.ignores change.path

/-- The change is ignored. -/
def hides (change : Change) : Bool := plan.scope.ignore.ignores change.path

variable {plan fs} {c : Coverage} {i : Intake} {now : Nat}

/-- What is queued for changes are those that are not ignored and what is found for them. -/
theorem length_announcedAll (changes : List Change) :
    (announcedAll plan fs c changes).length =
      changes.countP (shows plan) + (foundAll plan fs c changes).length := by
  induction changes generalizing c with
  | nil => rfl
  | cons change changes ih =>
    have hone : (announced plan fs c change).length =
        (if shows plan change then 1 else 0) + (found plan fs c change).length := by
      rw [announced, found, shows]
      by_cases hignored : plan.scope.ignore.ignores change.path = true
      · simp [hignored]
      · rw [if_neg hignored, if_neg hignored]
        split <;> simp [hignored, Nat.add_comm]
    rw [announcedAll, foundAll, List.length_append, List.length_append, ih, hone,
      List.countP_cons]
    omega

theorem length_announcement (notice : Notice) :
    (i.announcement plan fs now notice).length =
      (notice.changes fs).countP (shows plan) + (i.findings plan fs now notice).length := by
  cases notice with
  | fault text => rfl
  | signal s => exact length_announcedAll _

theorem moves_absorb (change : Change) :
    c.tally.Moves (absorb plan fs c change).1.tally (if shows plan change then 1 else 0)
      (if hides plan change then 1 else 0) 0 0 0 := by
  have habsorbs := absorbs_absorb plan fs c change
  have hobserved : c.tally.Moves (c.record .eventObserved).tally 1 0 0 0 0 := by
    constructor <;> simp [Coverage.record, Tally.record]
  rw [shows, hides]
  generalize absorb plan fs c change = after at habsorbs ⊢
  cases habsorbs with
  | ignored hidden =>
    rw [hidden]
    constructor <;> simp [Coverage.record, Tally.record]
  | appeared shown =>
    obtain ⟨failures, directories, htally⟩ := Coverage.tally_registerCreated fs plan.scope
      plan.policy (c.record .eventObserved) change.path
    simpa [shown, htally] using hobserved.registered failures directories
  | vanished shown => simpa [shown, Coverage.tally_unregister] using hobserved
  | queued shown => simpa [shown] using hobserved

theorem moves_absorbAll (changes : List Change) :
    c.tally.Moves (absorbAll plan fs c changes).1.tally (changes.countP (shows plan))
      (changes.countP (hides plan)) 0 0 0 := by
  induction changes generalizing c with
  | nil => exact .refl _
  | cons change changes ih =>
    rw [List.countP_cons, List.countP_cons, Nat.add_comm _ (ite _ _ _),
      Nat.add_comm _ (ite _ _ _)]
    exact (moves_absorb change).trans ih

theorem moves_handle (notice : Notice) :
    i.coverage.tally.Moves (i.handle plan fs now notice).1.coverage.tally
      ((notice.changes fs).countP (shows plan)) ((notice.changes fs).countP (hides plan)) 0 0
      notice.errors := by
  have herror : i.coverage.tally.Moves (i.coverage.record .observationError).tally 0 0 0 0 1 := by
    constructor <;> simp [Coverage.record, Tally.record]
  cases notice with
  | fault text => exact herror
  | signal s =>
    have hloss : i.coverage.tally.Moves
        (if s.rescan then i.noteLoss plan now else i).coverage.tally 0 0 0 0
        (Notice.signal s).errors := by
      cases hrescan : s.rescan with
      | false => simpa [Notice.errors, Notice.isFault, Notice.reportsLoss, hrescan] using .refl _
      | true =>
        have hcoverage : (i.noteLoss plan now).coverage = i.coverage.record .observationError := by
          unfold noteLoss
          dsimp only
          split <;> rfl
        simpa [Notice.errors, Notice.isFault, Notice.reportsLoss, hrescan, hcoverage] using herror
    simpa [handle, Notice.changes] using hloss.trans (moves_absorbAll (s.changes fs))

theorem moves_conclude (plan : Plan) (i : Intake) (accepted : Bool) :
    i.coverage.tally.Moves (i.conclude plan accepted).coverage.tally 0 0 accepted.toNat
      (!accepted).toNat 0 := by
  cases accepted <;> constructor <;> simp [conclude, Coverage.record, Tally.record]

end Intake

namespace Loop

variable {plan : Plan} {l : Loop} {m : Move} {after : Loop × List Record}

/-- The notice that a move handles, with the file system as the move finds it. -/
def handling? (l : Loop) : Move → Option (FileSystem × Notice)
  | .outside _ => none
  | .turn fs =>
    match l.phase, l.cancelled, l.queue with
    | .waiting, false, notice :: _ => some (fs, notice)
    | _, _, _ => none

/-- The changes that the notice is read as which a move handles. -/
def reading (l : Loop) (m : Move) : List Change :=
  match l.handling? m with
  | some (fs, notice) => notice.changes fs
  | none => []

/-- The entries that a move finds in directories that have appeared. -/
def finding (plan : Plan) (l : Loop) (m : Move) : List Path :=
  match l.handling? m with
  | some (fs, notice) => l.intake.findings plan fs l.clock notice
  | none => []

/-- The changes that the notices are read as which a run handles. -/
def readings (plan : Plan) (l : Loop) : List Move → List Change
  | [] => []
  | m :: ms => l.reading m ++ readings plan (l.move plan m).1 ms

/-- The entries that a run finds in directories that have appeared. -/
def findings (plan : Plan) (l : Loop) : List Move → List Path
  | [] => []
  | m :: ms => l.finding plan m ++ findings plan (l.move plan m).1 ms

/-! ### The changes -/

/-- A move queues what the notice announces that it handles. -/
theorem announcement_eq (plan : Plan) (l : Loop) (m : Move) :
    l.announcement plan m =
      match l.handling? m with
      | some (fs, notice) => l.intake.announcement plan fs l.clock notice
      | none => [] := by
  cases m with
  | outside stimulus => rfl
  | turn fs =>
    rw [announcement, handling?]
    cases l.phase <;> cases l.cancelled <;> cases l.queue <;> rfl

theorem length_announcement (m : Move) :
    (l.announcement plan m).length =
      (l.reading m).countP (Intake.shows plan) + (l.finding plan m).length := by
  rw [announcement_eq, reading, finding]
  cases l.handling? m with
  | none => rfl
  | some handled => exact Intake.length_announcement _

/-- What a run queues are the changes it reads that are not ignored, and what it finds. -/
theorem length_announced (ms : List Move) :
    (l.announced plan ms).length =
      (l.readings plan ms).countP (Intake.shows plan) + (l.findings plan ms).length := by
  induction ms generalizing l with
  | nil => rfl
  | cons m ms ih =>
    rw [announced, readings, findings, List.length_append, List.length_append,
      List.countP_append, ih, length_announcement]
    omega

/-- The sizes of all batches that were handed over. -/
def handedSize (records : List Record) : Nat :=
  ((records.filterMap Record.handover?).map fun h => h.batch.size).sum

/-- A batch is as large as what was queued for it and what was reported again with it. -/
theorem handedSize_eq (records : List Record) :
    handedSize records =
      (records.flatMap Record.carried).length + (records.flatMap Record.reported).length := by
  induction records with
  | nil => rfl
  | cons r records ih =>
    rw [handedSize] at ih ⊢
    rw [List.flatMap_cons, List.flatMap_cons, List.length_append, List.length_append]
    cases r with
    | handed handover =>
      have hsize : handover.batch.size = handover.queued.length + handover.reported.length :=
        List.length_append
      simp [Record.handover?, Record.carried, Record.reported, ih, hsize]
      omega
    | _ => simpa [List.filterMap_cons, Record.handover?, Record.carried, Record.reported] using ih

/-! ### The counters -/

/-- A step moves the counters by what it reads, by the notifier's answer and by the errors that the
notice it handles tells of. -/
theorem Step.moves (h : Step plan l m after) :
    l.intake.coverage.tally.Moves after.1.intake.coverage.tally
      ((l.reading m).countP (Intake.shows plan)) ((l.reading m).countP (Intake.hides plan))
      (after.2.countP (·.answer? = some true)) (after.2.countP (·.answer? = some false))
      ((after.2.filterMap Record.notice?).map Notice.errors).sum := by
  cases h with
  | came intake =>
    rw [intake]
    exact .refl _
  | finished phase | busy phase =>
    simpa [reading, handling?, phase] using .refl _
  | idle phase _ queue =>
    simpa [reading, handling?, phase, queue] using .refl _
  | handled phase cancelled queue =>
    simpa [reading, handling?, phase, cancelled, queue, Record.answer?, Record.notice?] using
      Intake.moves_handle _
  | flushed phase _ queue _ flush =>
    rw [Intake.flush_eq, Prod.mk.injEq] at flush
    obtain ⟨rfl, -⟩ := flush
    simpa [reading, handling?, phase, queue] using .refl _
  | handed phase _ queue _ flush =>
    rw [Intake.flush_eq, Prod.mk.injEq] at flush
    obtain ⟨rfl, -⟩ := flush
    simpa [reading, handling?, phase, queue, Record.answer?, Record.notice?] using .refl _
  | @concluded handover accepted =>
    have hmoves := Intake.moves_conclude plan l.intake accepted
    cases accepted <;>
      simpa [reading, handling?, List.filterMap_cons, Record.answer?, Record.notice?] using hmoves
  | @stopped fs phase ended =>
    have hnone : l.handling? (.turn fs) = none := by
      rcases ended with hcancelled | ⟨hqueue, -⟩
      · simp [handling?, phase, hcancelled]
      · simp [handling?, phase, hqueue]
    simpa [reading, hnone, stop, Record.answer?, Record.notice?] using .refl _
  | abandoned phase =>
    simpa [reading, handling?, phase, stop, Record.answer?, Record.notice?] using .refl _

theorem moves_run (plan : Plan) (l : Loop) (ms : List Move) :
    l.intake.coverage.tally.Moves (l.run plan ms).1.intake.coverage.tally
      ((l.readings plan ms).countP (Intake.shows plan))
      ((l.readings plan ms).countP (Intake.hides plan))
      ((l.run plan ms).2.countP (·.answer? = some true))
      ((l.run plan ms).2.countP (·.answer? = some false))
      (((l.run plan ms).2.filterMap Record.notice?).map Notice.errors).sum := by
  induction ms generalizing l with
  | nil => exact .refl _
  | cons m ms ih =>
    rw [run_cons, readings, List.countP_append, List.countP_append, List.countP_append,
      List.countP_append, List.filterMap_append, List.map_append, List.sum_append]
    exact (step_move plan l m).moves.trans (ih _)

/-! ### The account -/

/-- Every call of the notifier that came to its end was accepted or rejected. -/
theorem countP_answered (records : List Record) :
    records.countP (·.answer? = some true) + records.countP (·.answer? = some false) =
      records.countP (·.answer?.isSome) := by
  induction records with
  | nil => rfl
  | cons r records ih =>
    rw [List.countP_cons, List.countP_cons, List.countP_cons, ← ih]
    rcases r.answer? with _ | _ | _ <;> simp <;> omega

/-- Every change is ignored or not. -/
theorem countP_shows_add_hides (plan : Plan) (changes : List Change) :
    changes.countP (Intake.shows plan) + changes.countP (Intake.hides plan) = changes.length := by
  rw [Nat.add_comm, List.length_eq_countP_add_countP (Intake.hides plan)]
  exact congrArg _ (List.countP_congr fun change _ => by simp [Intake.shows, Intake.hides])

theorem sum_errors (notices : List Notice) :
    (notices.map Notice.errors).sum =
      notices.countP Notice.isFault + notices.countP Notice.reportsLoss := by
  induction notices with
  | nil => rfl
  | cons notice notices ih =>
    rw [List.map_cons, List.sum_cons, ih, List.countP_cons, List.countP_cons, Notice.errors]
    cases notice.isFault <;> cases notice.reportsLoss <;> simp <;> omega

/-- What the counters say after a run from the start, next to what they said before it. -/
structure Counts (plan : Plan) (coverage : Coverage) (ms : List Move) : Prop where
  /-- Errors are the notices that watching failed and those that tell of lost signals. -/
  errors : ((start plan coverage).run plan ms).1.intake.coverage.tally.observationErrors =
    coverage.tally.observationErrors +
      .ofNat ((((start plan coverage).run plan ms).2.filterMap Record.notice?).countP
          Notice.isFault +
        (((start plan coverage).run plan ms).2.filterMap Record.notice?).countP
          Notice.reportsLoss)
  /-- Every change that a handled notice is read as is observed or ignored. -/
  changes : ((start plan coverage).run plan ms).1.intake.coverage.tally.eventsObserved +
      ((start plan coverage).run plan ms).1.intake.coverage.tally.eventsIgnored =
    coverage.tally.eventsObserved + coverage.tally.eventsIgnored +
      .ofNat ((start plan coverage).readings plan ms).length
  /-- Every call of the notifier that has come to its end is a delivery or a failure. -/
  calls : ((start plan coverage).run plan ms).1.intake.coverage.tally.batchesDelivered +
      ((start plan coverage).run plan ms).1.intake.coverage.tally.notifyFailures =
    coverage.tally.batchesDelivered + coverage.tally.notifyFailures +
      .ofNat (((start plan coverage).run plan ms).2.countP (·.answer?.isSome))
  /-- All that was handed over, is pending or was dropped at the end was observed, or found in a
  directory that had appeared, or reported again. -/
  batches : coverage.tally.eventsObserved +
      .ofNat (handedSize ((start plan coverage).run plan ms).2 +
        ((start plan coverage).run plan ms).1.pending.length +
        (((start plan coverage).run plan ms).2.flatMap Record.discarded).length) =
    ((start plan coverage).run plan ms).1.intake.coverage.tally.eventsObserved +
      .ofNat (((start plan coverage).findings plan ms).length +
        (((start plan coverage).run plan ms).2.flatMap Record.reported).length)
  /-- Nothing is dropped before the end. -/
  kept : ((start plan coverage).run plan ms).1.phase ≠ .stopped →
    ((start plan coverage).run plan ms).2.flatMap Record.discarded = []

/-- Sizes of batches, and what is neither handed over nor kept. -/
theorem handedSize_run (coverage : Coverage) (ms : List Move) :
    handedSize ((start plan coverage).run plan ms).2 +
        ((start plan coverage).run plan ms).1.pending.length +
        (((start plan coverage).run plan ms).2.flatMap Record.discarded).length =
      ((start plan coverage).readings plan ms).countP (Intake.shows plan) +
        (((start plan coverage).findings plan ms).length +
          (((start plan coverage).run plan ms).2.flatMap Record.reported).length) := by
  have hpending : (start plan coverage).pending = [] := rfl
  have hbalanced : (start plan coverage).pending ++ (start plan coverage).announced plan ms = _ :=
    run_balanced ms
  replace hbalanced := congrArg List.length hbalanced
  rw [hpending, List.nil_append, length_announced, List.length_append, List.length_append]
    at hbalanced
  rw [handedSize_eq]
  omega

/-- **The counters account for everything.** They do so after every run, whatever came and in
whatever state the tree was found, and modulo `2 ^ 64`. -/
theorem counts_run (plan : Plan) (coverage : Coverage) (ms : List Move) :
    Counts plan coverage ms := by
  have hmoves := moves_run plan (start plan coverage) ms
  constructor
  case errors =>
    rw [hmoves.errors, sum_errors]
    rfl
  case changes =>
    rw [hmoves.observed, hmoves.ignored, ← countP_shows_add_hides plan, UInt64.ofNat_add]
    ac_rfl
  case calls =>
    rw [hmoves.delivered, hmoves.rejected, ← countP_answered, UInt64.ofNat_add]
    ac_rfl
  case batches =>
    rw [hmoves.observed, handedSize_run, UInt64.ofNat_add, ← UInt64.add_assoc]
    rfl
  case kept => exact run_discarded ms

end Loop

end WorkspaceWatch
