import WorkspaceWatch.Proofs.Coverage.Exact
import WorkspaceWatch.Proofs.Coverage.Files

/-!
# Reporting files again

A watch that is meant to resynchronise becomes **dirty** at a loss: a notice says that signals were
lost, or a batch is rejected. It becomes clean again when the burst closes, whether a batch comes of
that or not. So it is dirty exactly if there was a loss and the mark was not taken away since
(`Loop.dirty_run`).

`Loop.resyncs_run` is what follows for batches. A watch that is not meant to resynchronise never
reports a file again. Any other does so in exactly the batches that are handed over while a loss is
to be made good, and then it reports the files in the registered directories, each once. And
whatever the notifier answers, between two batches some notice has stirred the burst.
-/

namespace WorkspaceWatch

variable {plan : Plan} {fs : FileSystem} {now : Nat}

/-- Signals were lost, or a batch was rejected. -/
def Record.IsLoss : Record → Prop
  | .handled notice _ _ => notice.reportsLoss = true
  | .concluded _ accepted => accepted = false
  | _ => False

namespace Intake

variable {i : Intake}

/-- Handling a notice makes a watch dirty if the notice reports a loss that is to be made good. -/
theorem dirty_handle (notice : Notice) :
    (i.handle plan fs now notice).1.dirty = (i.dirty || plan.resync && notice.reportsLoss) := by
  cases notice with
  | fault text => simp [handle, Notice.reportsLoss]
  | signal s =>
    have hloss : (if s.rescan then i.noteLoss plan now else i).dirty =
        (i.dirty || plan.resync && s.rescan) := by
      unfold noteLoss
      cases s.rescan <;> cases plan.resync <;> simp
    simpa [handle, Notice.reportsLoss] using hloss

end Intake

namespace Loop

variable {l : Loop} {m m' : Move} {h h' : Handover} {after : Loop × List Record}

/-- The burst is going to close: the loop waits, nothing else comes first, and the deadline has
come. -/
structure IsDue (l : Loop) : Prop where
  phase : l.phase = .waiting
  cancelled : l.cancelled = false
  queue : l.queue = []
  closed : l.closed = false
  due : l.intake.burst.isDue l.clock = true

instance : DecidablePred IsDue := fun l =>
  decidable_of_iff
    (l.phase = .waiting ∧ l.cancelled = false ∧ l.queue = [] ∧ l.closed = false ∧
      l.intake.burst.isDue l.clock = true)
    ⟨fun ⟨phase, cancelled, queue, closed, due⟩ => ⟨phase, cancelled, queue, closed, due⟩,
      fun h => ⟨h.phase, h.cancelled, h.queue, h.closed, h.due⟩⟩

/-- The move closes the burst. -/
def Flushes (l : Loop) : Move → Prop
  | .turn _ => l.IsDue
  | .outside _ => False

instance (l : Loop) : DecidablePred l.Flushes
  | .turn _ => inferInstanceAs (Decidable l.IsDue)
  | .outside _ => inferInstanceAs (Decidable False)

/-- The move closes the burst of a dirty watch, which takes the mark away. -/
def Cleans (l : Loop) (m : Move) : Prop := l.Flushes m ∧ l.intake.dirty = true

/-- With the move there is a loss. -/
def Loses (plan : Plan) (l : Loop) (m : Move) : Prop := ∃ r ∈ (l.move plan m).2, r.IsLoss

/-- There was a loss in a run, and no burst that closed since took the mark away. -/
def Owes (plan : Plan) (l : Loop) (ms : List Move) : Prop := l.Since plan (Loses plan) Cleans ms

/-- When the burst closes, the watch is clean, and what is pending and the report are handed over,
unless there is neither. -/
theorem move_of_isDue (hdue : l.IsDue) (fs : FileSystem) :
    l.move plan (.turn fs) =
      let intake := { l.intake with burst := l.intake.burst.cleared, dirty := false }
      let handover : Handover := ⟨l.pending, l.intake.report plan fs, l.clock⟩
      if l.pending ++ l.intake.report plan fs = [] then ({ l with intake }, [])
      else ({ l with intake, phase := .delivering handover }, [.handed handover]) := by
  by_cases hnone : l.intake.burst.pending ++ l.intake.report plan fs = [] <;>
    simp [move, turn, hdue.phase, hdue.cancelled, hdue.queue, hdue.closed, hdue.due,
      Intake.flush_eq, pending, hnone, -List.append_eq_nil_iff]

/-- What is pending and the report are all that is handed over when the burst closes. -/
theorem records_of_isDue (hdue : l.IsDue) (fs : FileSystem) : (l.move plan (.turn fs)).2 =
    if l.pending ++ l.intake.report plan fs = [] then []
    else [.handed ⟨l.pending, l.intake.report plan fs, l.clock⟩] := by
  rw [move_of_isDue hdue]
  dsimp only
  split <;> rfl

/-! ### The mark -/

/-- A move makes the watch dirty if there is a loss, and keeps it dirty unless it closes the
burst. -/
theorem dirty_move (hresync : plan.resync = true) : (l.move plan m).1.intake.dirty = true ↔
    l.Loses plan m ∨ l.intake.dirty = true ∧ ¬l.Cleans m := by
  by_cases hflushes : l.Flushes m
  · cases m with
    | outside stimulus => exact hflushes.elim
    | turn fs =>
      -- Closing the burst takes the mark away, and is no loss itself.
      rw [Loses, move_of_isDue hflushes]
      dsimp only
      split <;> simp [Record.IsLoss, Cleans, hflushes]
  · have hstays : ¬l.Cleans m := fun hcleans => hflushes hcleans.1
    have hstep := step_move plan l m
    rw [Loses]
    generalize l.move plan m = after at hstep ⊢
    cases hstep with
    | came intake => simp [intake, hstays]
    | finished | busy | idle => simp [hstays]
    | handled => simp [Intake.dirty_handle, hresync, Record.IsLoss, hstays, or_comm]
    | flushed phase cancelled queue due _ closed | handed phase cancelled queue due _ closed =>
      exact absurd ⟨phase, cancelled, queue, closed, due⟩ hflushes
    | @concluded handover accepted =>
      cases accepted <;> simp [Intake.conclude, hresync, Record.IsLoss, hstays]
    | stopped | abandoned => simp [stop, Record.IsLoss, hstays]

/-- **A watch is dirty exactly if a loss is to be made good.** -/
theorem dirty_run (hresync : plan.resync = true) (coverage : Coverage) (ms : List Move) :
    ((start plan coverage).run plan ms).1.intake.dirty = true ↔
      (start plan coverage).Owes plan ms := by
  induction ms using List.reverseRecOn with
  | nil => exact iff_of_false nofun not_since_nil
  | append_singleton ms m ih =>
    rw [run_append, Owes, since_concat, ← Owes, ← ih]
    exact dirty_move hresync

/-- A watch that is not meant to resynchronise stays clean. -/
theorem Step.clean (h : Step plan l m after) (hresync : plan.resync = false)
    (hl : l.intake.dirty = false) : after.1.intake.dirty = false := by
  cases h with
  | came intake => rwa [intake]
  | finished | busy | idle | stopped | abandoned => exact hl
  | handled => rw [Intake.dirty_handle, hl, hresync, Bool.false_and, Bool.or_false]
  | flushed _ _ _ _ flush | handed _ _ _ _ flush => rw [Intake.eq_of_flush flush]
  | @concluded handover accepted =>
    cases accepted
    · exact hresync
    · exact hl

theorem clean_run (hresync : plan.resync = false) (coverage : Coverage) (ms : List Move) :
    ((start plan coverage).run plan ms).1.intake.dirty = false :=
  invariant_run (fun l => l.intake.dirty = false) (fun hstep => hstep.clean hresync) ms rfl

/-! ### Batches -/

/-- How a loop that began as `l₀` and went through the moves `ms` reports files again. -/
structure Resyncs (plan : Plan) (l₀ : Loop) (ms : List Move) : Prop where
  /-- A batch is what was queued and then the report. -/
  composed : ∀ {m h}, .handed h ∈ ((l₀.run plan ms).1.move plan m).2 →
    h.queued = (l₀.run plan ms).1.pending ∧ h.batch.changes = h.queued ++ h.reported
  /-- A watch that is not meant to resynchronise reports nothing again. -/
  off : plan.resync = false → ∀ {m h}, .handed h ∈ ((l₀.run plan ms).1.move plan m).2 →
    h.reported = []
  /-- If a loss is to be made good, then the files in the registered directories are reported, as
  these are found when the batch is handed over, and each file once. -/
  owed : plan.resync = true → l₀.Owes plan ms → ∀ {fs h},
    .handed h ∈ ((l₀.run plan ms).1.move plan (.turn fs)).2 →
    ∃ files : List Path, h.reported = files.map .changed ∧
      (∀ x, x ∈ files ↔ ∃ d ∈ (l₀.run plan ms).1.intake.coverage.directories,
        Coverage.HoldsFile fs plan.scope d x) ∧
      files.Pairwise fun x y => ¬x.Same y
  /-- If no loss is to be made good, nothing is reported again. -/
  settled : plan.resync = true → ¬l₀.Owes plan ms → ∀ {m h},
    .handed h ∈ ((l₀.run plan ms).1.move plan m).2 → h.reported = []
  /-- Between two batches some notice was handled for which something was queued or, on a watch that
  is meant to resynchronise, that reported a loss. -/
  prompted : ∀ {m h m' h' mid}, .handed h ∈ ((l₀.run plan ms).1.move plan m).2 →
    .handed h' ∈ ((((l₀.run plan ms).1.move plan m).1.run plan mid).1.move plan m').2 →
    ∃ notice queued t,
      .handled notice queued t ∈ (((l₀.run plan ms).1.move plan m).1.run plan mid).2 ∧
        (queued ≠ [] ∨ plan.resync = true ∧ notice.reportsLoss = true)

/-- A batch is handed over only when the burst closes. -/
theorem isDue_of_handed (hmem : .handed h ∈ (l.move plan m).2) : l.IsDue := by
  have hstep := step_move plan l m
  generalize l.move plan m = after at hstep hmem
  cases hstep with
  | handed phase cancelled queue due _ closed => exact ⟨phase, cancelled, queue, closed, due⟩
  | _ => simp [stop] at hmem

/-- What is handed over depends only on the loop and on the file system that it finds. -/
theorem eq_of_handed (hmem : .handed h ∈ (l.move plan (.turn fs)).2) :
    h = ⟨l.pending, l.intake.report plan fs, l.clock⟩ := by
  obtain ⟨fs', heq, rfl, -⟩ := of_handed hmem
  rw [Move.turn.inj heq]

/-- What is reported by a clean watch is nothing. -/
theorem reported_of_clean (hclean : l.intake.dirty = false)
    (hmem : .handed h ∈ (l.move plan m).2) : h.reported = [] := by
  obtain ⟨fs, -, rfl, -⟩ := of_handed hmem
  rw [Intake.report, if_neg (by simp [hclean])]

/-- After a batch was handed over there is another one only if the burst was stirred. -/
theorem stirred_of_handed {mid : List Move}
    (hmem : .handed h ∈ (l.move plan m).2)
    (hmem' : .handed h' ∈ (((l.move plan m).1.run plan mid).1.move plan m').2) :
    ∃ notice queued t, .handled notice queued t ∈ ((l.move plan m).1.run plan mid).2 ∧
      (queued ≠ [] ∨ plan.resync = true ∧ notice.reportsLoss = true) := by
  -- The first batch leaves no deadline behind, and the second one had one.
  obtain ⟨-, -, -, -, -, hnone⟩ := of_handed hmem
  obtain ⟨-, -, -, -, ⟨d, hd, -⟩, -⟩ := of_handed hmem'
  cases hlast : lastStirred plan ((l.move plan m).1.run plan mid).2 with
  | none =>
    rw [deadline_run_eq_none mid hnone hlast] at hd
    cases hd
  | some t =>
    obtain ⟨notice, queued, hhandled, hstirs⟩ := handled_of_lastStirred hlast
    exact ⟨notice, queued, t, hhandled, Notice.stirs_iff.mp hstirs⟩

/-- **The protocol of resynchronisation**: every loop of a watch whose root was registered reports
files again like this, at any time of any run. -/
theorem resyncs_run (fs₀ : FileSystem) (tally : Tally) (root : Path) (plan : Plan)
    (ms : List Move) : Resyncs plan
      (start plan (Coverage.registerRoot fs₀ plan.scope plan.policy { tally } root).1) ms where
  composed := fun hmem => by
    obtain ⟨fs, -, rfl, -⟩ := of_handed hmem
    exact ⟨rfl, rfl⟩
  off := fun hresync _ _ hmem => reported_of_clean (clean_run hresync _ ms) hmem
  owed := fun hresync howes fs h hmem => by
    have hdirty := (dirty_run hresync _ ms).mpr howes
    refine ⟨_, by rw [eq_of_handed hmem, Intake.report, if_pos hdirty],
      fun x => Coverage.mem_files_iff, ?_⟩
    exact Coverage.pairwise_files (Coverage.isDistinct_run fs₀ tally root plan ms)
  settled := fun hresync howes _ _ hmem => by
    refine reported_of_clean ?_ hmem
    simpa using mt (dirty_run hresync _ ms).mp howes
  prompted := stirred_of_handed

/-! ### A rejection

In the tree `/w` with a file `a`, the batch that tells of `a` is rejected, and then a file `b`
appears. -/

/-- The tree with `/w/a`. -/
def fileTree : FileSystem := Coverage.sampleTree.insert [[119]] [97] (.file "")

/-- The tree with `/w/a` and `/w/b`. -/
def bothTree : FileSystem := fileTree.insert [[119]] [98] (.file "")

/-- A watch that is meant to resynchronise. -/
def resyncing : Plan := { window := 100, resync := true }

/-- The coverage of the tree with `/w/a`. -/
def fileCoverage : Coverage :=
  (Coverage.registerRoot fileTree {} Backend.acceptAll {} Coverage.sampleRoot).1

/-- A signal is handled in the tree `fs`, and the batch is handed over and answered. -/
def delivery (fs : FileSystem) (kind : SignalKind) (name : Name) (accepted : Bool) : List Move :=
  [.outside (.arrive (.signal { kind, paths := [Coverage.sampleRoot.under [name]] })), .turn fs,
    .outside (.advance 100), .turn fs, .outside (.answer accepted)]

/-- The run up to the time at which the second batch is due. -/
def rejectedRun : List Move :=
  delivery fileTree (.modify .any) [97] false ++
    (delivery bothTree (.create .file) [98] true).take 3

/-- The second batch reports what is in `/w` again. -/
theorem resyncs_rejected : ∃ h, ∃ files : List Path,
    .handed h ∈ (((start resyncing fileCoverage).run resyncing rejectedRun).1.move resyncing
      (.turn bothTree)).2 ∧
    h.reported = files.map .changed ∧
    ∀ x, x ∈ files ↔ ∃ d ∈ ((start resyncing fileCoverage).run resyncing
        rejectedRun).1.intake.coverage.directories, Coverage.HoldsFile bothTree {} d x := by
  have hrejected : (start resyncing fileCoverage).Since resyncing
      (fun l m => .concluded ⟨[.changed (Coverage.sampleRoot.under [[97]])], [], 100⟩ false ∈
        (l.move resyncing m).2) Flushes rejectedRun :=
    ⟨(delivery fileTree (.modify .any) [97] false).take 4, .outside (.answer false),
      (delivery bothTree (.create .file) [98] true).take 3, rfl, by decide, by decide⟩
  have howes : (start resyncing fileCoverage).Owes resyncing rejectedRun :=
    hrejected.imp (fun _ _ hmem => ⟨_, hmem, rfl⟩) fun _ _ => And.left
  have hmem : .handed ⟨[.created (Coverage.sampleRoot.under [[98]])],
        [.changed (Coverage.sampleRoot.under [[97]]), .changed (Coverage.sampleRoot.under [[98]])],
        200⟩ ∈
      (((start resyncing fileCoverage).run resyncing rejectedRun).1.move resyncing
        (.turn bothTree)).2 := by decide
  obtain ⟨files, hreported, hfiles, -⟩ := (resyncs_run fileTree {} Coverage.sampleRoot resyncing
    rejectedRun).owed rfl howes hmem
  exact ⟨_, files, hmem, hreported, hfiles⟩

end Loop

end WorkspaceWatch
