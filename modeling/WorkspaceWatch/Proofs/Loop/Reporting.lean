import WorkspaceWatch.Proofs.Json.Roundtrip
import WorkspaceWatch.Proofs.Loop.Quiet
import WorkspaceWatch.Proofs.Loop.Reconvergence
import WorkspaceWatch.Report

/-!
# Reporting in JSON after a failure

A batch can be reported in JSON exactly if all of its paths are text (`report_json_iff`). Say that
could not be done for some batch, or that the notifier failed for whatever reason, and that since
then only changes of paths that are text were queued. Is the next batch reported?

* If the watch is not meant to resynchronise, it is.
* Otherwise the next batch also tells of the files in registered directories, and one file whose
  path is not text is enough for the report to fail again: nothing else is needed to block all
  reports for good, as each failure has the files reported again (`Loop.blocked`).

So the answer depends on the files that are there when the batch is handed over
(`Loop.reports_next`).
-/

namespace WorkspaceWatch

instance (p : Path) : Decidable p.IsText :=
  decidable_of_iff (p.toJson?.isSome = true) (by
    rw [Option.isSome_iff_exists]
    simp only [Path.toJson?_eq_some_iff]
    exact ⟨fun ⟨_, s, hs, _⟩ => ⟨s, hs⟩, fun ⟨s, hs⟩ => ⟨_, s, hs, rfl⟩⟩)

/-- A batch can be reported in JSON exactly if all of its paths are text. -/
theorem report_json_iff {b : Batch} :
    (∃ line, ReportFormat.json.report b = .ok line) ↔ ∀ c ∈ b.changes, c.path.IsText := by
  have hnone := Batch.toJson?_eq_none_iff (b := b)
  rw [ReportFormat.report]
  split
  · next j hj =>
    refine iff_of_true ⟨_, rfl⟩ fun c hc => ?_
    by_contra hnot
    rw [hnone.mpr ⟨c, hc, hnot⟩] at hj
    cases hj
  · next hj =>
    obtain ⟨c, hc, hnot⟩ := hnone.mp hj
    exact iff_of_false nofun fun hall => hnot (hall c hc)

instance (b : Batch) : Decidable (∃ line, ReportFormat.json.report b = .ok line) :=
  decidable_of_iff _ report_json_iff.symm

/-- An answer is the one of a notifier that reports in JSON. -/
def Record.IsReported : Record → Prop
  | .concluded h accepted => accepted = true ↔ ∃ line, ReportFormat.json.report h.batch = .ok line
  | _ => True

instance : DecidablePred Record.IsReported
  | .concluded _ _ => inferInstanceAs (Decidable (_ ↔ _))
  | .handled _ _ _ | .handed _ | .abandoned _ | .dropped _ => inferInstanceAs (Decidable True)

namespace Loop

variable {plan : Plan} {l : Loop} {m : Move} {mid : List Move} {fs : FileSystem} {h : Handover}

/-- Everything that a run queues is about a path that is text. -/
def QueuesText (plan : Plan) (l : Loop) (ms : List Move) : Prop :=
  ∀ c ∈ (l.run plan ms).2.flatMap Record.gathered, c.path.IsText

instance (ms : List Move) : Decidable (QueuesText plan l ms) :=
  inferInstanceAs (Decidable (∀ c ∈ _, _))

/-- The files in registered directories all have paths that are text. -/
def ListsText (scope : Scope) (fs : FileSystem) (l : Loop) : Prop :=
  ∀ d ∈ l.intake.coverage.directories, ∀ x, Coverage.HoldsFile fs scope d x → x.IsText

theorem listsText_iff {scope : Scope} :
    l.ListsText scope fs ↔ ∀ x ∈ l.intake.coverage.files fs scope, x.IsText := by
  simp only [ListsText, Coverage.mem_files_iff]
  exact ⟨fun hall x ⟨d, hd, hx⟩ => hall d hd x hx, fun hall d hd x hx => hall x ⟨d, hd, hx⟩⟩

instance (scope : Scope) (fs : FileSystem) (l : Loop) : Decidable (l.ListsText scope fs) :=
  decidable_of_iff _ listsText_iff.symm

/-- The notifier answers only while it has a batch. -/
theorem move_of_answers {accepted : Bool} (hanswers : l.Answers plan accepted m) :
    ∃ h, l.phase = .delivering h ∧ (l.move plan m).1 =
      { l with intake := l.intake.conclude plan accepted, phase := .waiting } := by
  obtain ⟨r, hr, hanswer⟩ := hanswers
  have hstep := step_move plan l m
  generalize l.move plan m = after at hstep hr ⊢
  cases hstep with
  | concluded phase =>
    cases List.mem_singleton.mp hr
    cases hanswer
    exact ⟨_, phase, rfl⟩
  | came | finished | busy | idle | flushed => cases hr
  | handled | handed | stopped =>
    cases List.mem_singleton.mp hr
    cases hanswer
  | abandoned =>
    rcases List.mem_cons.mp hr with rfl | hr
    · cases hanswer
    · cases List.mem_singleton.mp hr
      cases hanswer

/-- What is pending in the end was queued in the run if nothing was pending before it and nothing
was handed over. -/
theorem pending_of_not_handed (hempty : l.pending = [])
    (hsole : (l.run plan mid).2.filterMap Record.handover? = [])
    (hwaits : (l.run plan mid).1.phase = .waiting) :
    (l.run plan mid).1.pending = (l.run plan mid).2.flatMap Record.gathered := by
  have hbalance := run_pending mid (show (l.run plan mid).1.phase ≠ .stopped by simp [hwaits])
  rw [hempty, carried_eq_nil hsole] at hbalance
  exact hbalance.symm

/-- A dirty watch stays dirty as long as nothing is handed over and the burst does not close with
nothing to hand over. -/
theorem dirty_of_not_handed (hresync : plan.resync = true) (hdirty : l.intake.dirty = true)
    (hsole : (l.run plan mid).2.filterMap Record.handover? = [])
    (hmarked : l.Along plan (fun l m => ¬l.Lapses plan m) mid) :
    (l.run plan mid).1.intake.dirty = true := by
  induction mid generalizing l with
  | nil => exact hdirty
  | cons m mid ih =>
    rw [run_cons, List.filterMap_append, List.append_eq_nil_iff] at hsole
    rw [run_cons]
    refine ih ((dirty_move hresync).mpr (.inr ⟨hdirty, fun hcleans => ?_⟩)) hsole.2 hmarked.2
    refine hmarked.1 ⟨hcleans.1, ?_⟩
    cases m with
    | outside stimulus => exact hcleans.1.elim
    | turn fs =>
      have hnone := hsole.1
      rw [records_of_isDue hcleans.1] at hnone ⊢
      split at hnone
      · next hnil => rw [if_pos hnil]
      · cases hnone

/-- What a batch tells of are the changes that were queued and, on a dirty watch, the files in
registered directories. -/
theorem isText_batch_iff (hnext : .handed h ∈ (l.move plan (.turn fs)).2) :
    (∀ c ∈ h.batch.changes, c.path.IsText) ↔
      (∀ c ∈ l.pending, c.path.IsText) ∧
        (l.intake.dirty = true → l.ListsText plan.scope fs) := by
  obtain ⟨hbatch, -, -⟩ := move_batch hnext
  rw [hbatch, List.forall_mem_append]
  refine and_congr_right fun _ => ?_
  rw [Intake.report]
  split
  · next hdirty =>
    rw [List.forall_mem_map, listsText_iff]
    exact ⟨fun hall _ => hall, fun hall => hall hdirty⟩
  · next hclean => simp [hclean]

/-- **The report after a failure.** Say a call of the notifier failed, and up to the next batch only
changes of paths that are text were queued. Then the next batch can be reported in JSON if the
watch is not meant to resynchronise, or if the files in registered directories all have paths that
are text when the batch is handed over. If the watch is meant to resynchronise and the burst did
not close with nothing to hand over in between, then the batch can be reported only if they do. -/
theorem reports_next (coverage : Coverage) {before : List Move} {l l' : Loop}
    (hl : l = ((start plan coverage).run plan before).1) (hfailed : l.Answers plan false m)
    (hl' : l' = ((l.move plan m).1.run plan mid).1)
    (hsole : ((l.move plan m).1.run plan mid).2.filterMap Record.handover? = [])
    (htext : QueuesText plan (l.move plan m).1 mid)
    (hnext : .handed h ∈ (l'.move plan (.turn fs)).2) :
    (plan.resync = false ∨ l'.ListsText plan.scope fs →
      ∃ line, ReportFormat.json.report h.batch = .ok line) ∧
    (plan.resync = true → (l.move plan m).1.Along plan (fun l m => ¬l.Lapses plan m) mid →
      (∃ line, ReportFormat.json.report h.batch = .ok line) → l'.ListsText plan.scope fs) := by
  obtain ⟨h₀, hphase, hmove⟩ := move_of_answers hfailed
  have hempty : (l.move plan m).1.pending = [] := by
    rw [hmove, pending, Intake.pending_conclude, hl]
    exact ((accounts_run plan coverage before []).later h₀ (hl ▸ hphase)).1
  have hpending : l'.pending = ((l.move plan m).1.run plan mid).2.flatMap Record.gathered :=
    hl' ▸ pending_of_not_handed hempty hsole (hl' ▸ (isDue_of_handed hnext).phase)
  rw [report_json_iff, isText_batch_iff hnext, hpending]
  -- A watch that is not meant to resynchronise is never dirty; one that is meant to has been dirty
  -- since the failure.
  refine ⟨fun hor => ⟨htext, fun hdirty => hor.resolve_left fun hresync => ?_⟩,
    fun hresync hmarked hall => hall.2 ?_⟩
  · have hclean := clean_run hresync coverage (before ++ m :: mid)
    rw [run_append, run_cons, ← hl, ← hl', hdirty] at hclean
    cases hclean
  · rw [hl']
    refine dirty_of_not_handed hresync ?_ hsole hmarked
    rw [hmove]
    exact hresync

/-! ### A name that is no text

In `/w` there is a file whose name is the byte `255`. It cannot be reported that it was created.
Then a file `b` appears. -/

/-- The tree with `/w` and a file in it whose name is no text. -/
def rawTree : FileSystem := Coverage.sampleTree.insert [[119]] [255] (.file "")

/-- The tree with the file `/w/b` too. -/
def rawBothTree : FileSystem := rawTree.insert [[119]] [98] (.file "")

/-- The coverage of the tree with `/w`. -/
def rawCoverage : Coverage :=
  (Coverage.registerRoot rawTree {} Backend.acceptAll {} Coverage.sampleRoot).1

/-- The run up to the answer to the first batch, which cannot be reported. -/
def rawRun : List Move := delivery rawTree (.create .file) [255] false

/-- A second batch, up to when it is due. -/
def nextRun (fs : FileSystem) : List Move := (delivery fs (.create .file) [98] true).take 3

/-- If the file is gone by then, the second batch can be reported. -/
theorem reports_next_removed : ∃ h,
    .handed h ∈ (((start resyncing rawCoverage).run resyncing
      (rawRun ++ nextRun otherTree)).1.move resyncing (.turn otherTree)).2 ∧
    ∃ line, ReportFormat.json.report h.batch = .ok line := by
  refine ⟨⟨[.created (Coverage.sampleRoot.under [[98]])],
    [.changed (Coverage.sampleRoot.under [[98]])], 200⟩, by decide, ?_⟩
  exact (@reports_next resyncing (.outside (.answer false)) (nextRun otherTree) otherTree _
    rawCoverage (rawRun.take 4) _ _ rfl (by decide) rfl (by decide) (by decide) (by decide)).1
    (.inr (by decide))

/-- If it is still there, the second batch cannot be reported either, though nothing but the
creation of `b` was queued for it. -/
theorem blocked : ∃ h,
    Coverage.sampleRoot.IsText ∧
    ((start resyncing rawCoverage).run resyncing (rawRun.take 4)).1.Answers resyncing false
      (.outside (.answer false)) ∧
    (∀ r ∈ ((start resyncing rawCoverage).run resyncing rawRun).2, r.IsReported) ∧
    (((start resyncing rawCoverage).run resyncing rawRun).1.run resyncing
      (nextRun rawBothTree)).2.filterMap Record.handover? = [] ∧
    QueuesText resyncing ((start resyncing rawCoverage).run resyncing rawRun).1
      (nextRun rawBothTree) ∧
    .handed h ∈ ((((start resyncing rawCoverage).run resyncing rawRun).1.run resyncing
      (nextRun rawBothTree)).1.move resyncing (.turn rawBothTree)).2 ∧
    ¬∃ line, ReportFormat.json.report h.batch = .ok line := by
  exact ⟨⟨[.created (Coverage.sampleRoot.under [[98]])],
    [.changed (Coverage.sampleRoot.under [[255]]), .changed (Coverage.sampleRoot.under [[98]])],
    200⟩, by decide, by decide, by decide, by decide, by decide, by decide, by decide⟩

end Loop

end WorkspaceWatch
