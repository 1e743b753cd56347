import WorkspaceWatch.Proofs.Loop.Resync

/-!
# What a report makes good

A report of files makes a loss good as far as the files are listed, and what is listed are the files
in *registered* directories. Two things follow.

* After signals were lost, the next batch tells of every visible file whose directory is
  registered, and its report tells of no other (`Loop.rereports`). A directory whose creation was
  among what was lost is not registered, so its files are not told of (`Loop.not_rereported`).
* After a batch was rejected, every batch up to the next one that is accepted tells of all paths of
  it that are listed by then (`Loop.reconverges`). A path that was deleted is not listed, and
  nothing tells of it again; and a burst that closes with nothing to hand over takes the mark away
  for good (`Loop.not_reconverged`).
-/

namespace WorkspaceWatch

/-- The notifier's answer. -/
def Record.answer? : Record → Option Bool
  | .concluded _ accepted => some accepted
  | _ => none

namespace Loop

variable {plan : Plan} {l : Loop} {m : Move} {ms : List Move} {fs : FileSystem} {h h' : Handover}
  {after : Loop × List Record}

/-- A notice is handled that says that signals were lost. -/
def Overflows (plan : Plan) (l : Loop) (m : Move) : Prop :=
  ∃ notice ∈ (l.move plan m).2.filterMap Record.notice?, notice.reportsLoss = true

/-- The notifier answers, and this is its answer. -/
def Answers (plan : Plan) (accepted : Bool) (l : Loop) (m : Move) : Prop :=
  ∃ r ∈ (l.move plan m).2, r.answer? = some accepted

/-- The burst closes with nothing to hand over. -/
def Lapses (plan : Plan) (l : Loop) (m : Move) : Prop := l.Flushes m ∧ (l.move plan m).2 = []

instance (l : Loop) (m : Move) : Decidable (l.Overflows plan m) :=
  inferInstanceAs (Decidable (∃ notice ∈ _, _))

instance (accepted : Bool) (l : Loop) (m : Move) : Decidable (l.Answers plan accepted m) :=
  inferInstanceAs (Decidable (∃ r ∈ _, _))

instance (l : Loop) (m : Move) : Decidable (l.Lapses plan m) :=
  inferInstanceAs (Decidable (_ ∧ _))

theorem Overflows.loses (h : l.Overflows plan m) : l.Loses plan m := by
  obtain ⟨notice, hmem, hloss⟩ := h
  obtain ⟨r, hr, hnotice⟩ := List.mem_filterMap.mp hmem
  refine ⟨r, hr, ?_⟩
  cases r <;> cases hnotice
  exact hloss

theorem Answers.loses (h : l.Answers plan false m) : l.Loses plan m := by
  obtain ⟨r, hr, hanswer⟩ := h
  refine ⟨r, hr, ?_⟩
  cases r <;> cases hanswer
  rfl

/-! ### Closing the burst -/

/-- When a loss is to be made good, whatever is listed is handed over. -/
theorem handed_of_dirty {x : Path} (hdue : l.IsDue) (hdirty : l.intake.dirty = true)
    (hx : x ∈ l.intake.coverage.files fs plan.scope) :
    ∃ h, .handed h ∈ (l.move plan (.turn fs)).2 ∧ .changed x ∈ h.batch.changes := by
  have hreport : .changed x ∈ l.intake.report plan fs := by
    rw [Intake.report, if_pos hdirty]
    exact List.mem_map_of_mem hx
  have hall := List.mem_append_right l.pending hreport
  rw [records_of_isDue hdue, if_neg (List.ne_nil_of_mem hall)]
  exact ⟨_, List.mem_singleton_self _, hall⟩

/-- What is reported again is listed. -/
theorem listed_of_reported {c : Change} (hmem : .handed h ∈ (l.move plan (.turn fs)).2)
    (hc : c ∈ h.reported) : c.path ∈ l.intake.coverage.files fs plan.scope := by
  rw [eq_of_handed hmem, Intake.report] at hc
  split at hc
  · obtain ⟨x, hx, rfl⟩ := List.mem_map.mp hc
    exact hx
  · cases hc

/-! ### Lost signals -/

/-- **What is told again after signals were lost.** In a clear tree, the next batch after such a
loss tells of every visible file whose directory is registered, and its report tells of no other
file. -/
theorem rereports (coverage : Coverage) {root : Path} {r p : Place} {name : Name}
    (hresync : plan.resync = true)
    (hlost : (start plan coverage).Since plan (Overflows plan) Flushes ms)
    (hdue : ((start plan coverage).run plan ms).1.IsDue)
    (hclear : Coverage.IsClear plan.scope fs root r)
    (hvisible : Coverage.Visible plan.scope fs root r (name :: p))
    (hfile : ¬fs.HasDirectory (name :: p ++ r)) :
    (root.under p ∈ ((start plan coverage).run plan ms).1.intake.coverage.directories →
      ∃ h, .handed h ∈ (((start plan coverage).run plan ms).1.move plan (.turn fs)).2 ∧
        .changed (root.under (name :: p)) ∈ h.batch.changes) ∧
    ∀ h, .handed h ∈ (((start plan coverage).run plan ms).1.move plan (.turn fs)).2 →
      (∃ c ∈ h.reported, c.path.Same (root.under (name :: p))) →
      ((start plan coverage).run plan ms).1.intake.coverage.isRegistered (root.under p) = true := by
  have howes : (start plan coverage).Owes plan ms :=
    hlost.imp (fun _ _ => Overflows.loses) fun _ _ => And.left
  have hdirty := (dirty_run hresync coverage ms).mpr howes
  obtain ⟨hlisted, hregistered⟩ := hclear.exists_mem_files_iff
    (c := ((start plan coverage).run plan ms).1.intake.coverage) hvisible hfile
  refine ⟨fun hd => handed_of_dirty hdue hdirty (hlisted hd), fun h hmem hc => hregistered ?_⟩
  obtain ⟨c, hc, hsame⟩ := hc
  exact ⟨c.path, listed_of_reported hmem hc, hsame⟩

/-! #### An overflow

Next to `/w/a` a directory `d` appears with a file `f` in it, and signals are lost instead of
telling of them. -/

/-- The tree with `/w/a` and `/w/d/f`. -/
def deeperTree : FileSystem :=
  (fileTree.insert [[119]] [100] (.directory {})).insert [[100], [119]] [102] (.file "")

/-- Signals were lost, and nothing else is said. -/
def overflow : Notice := .signal { kind := .other, paths := [], rescan := true }

/-- The overflow is handled, and the window passes. -/
def overflowRun : List Move :=
  [.outside (.arrive overflow), .turn deeperTree, .outside (.advance 100)]

theorem isClear_deeperTree : Coverage.IsClear {} deeperTree Coverage.sampleRoot [[119]] :=
  .of_entries (by decide) (by decide) (by decide)

theorem since_overflowRun :
    (start resyncing fileCoverage).Since resyncing (Overflows resyncing) Flushes overflowRun :=
  ⟨[.outside (.arrive overflow)], .turn deeperTree, [.outside (.advance 100)], rfl, by decide,
    by decide⟩

/-- The file `a` is told of after the overflow. -/
theorem rereports_overflow : ∃ h,
    .handed h ∈ (((start resyncing fileCoverage).run resyncing overflowRun).1.move resyncing
      (.turn deeperTree)).2 ∧
    .changed (Coverage.sampleRoot.under [[97]]) ∈ h.batch.changes :=
  (rereports (p := []) fileCoverage rfl since_overflowRun (by decide) isClear_deeperTree
    ⟨trivial, by decide, rfl⟩ (by decide)).1 (by decide)

/-- The file `f` is visible, but it is not told of after the overflow. -/
theorem not_rereported : ∃ h,
    (start resyncing fileCoverage).Since resyncing (Overflows resyncing) Flushes overflowRun ∧
    ((start resyncing fileCoverage).run resyncing overflowRun).1.IsDue ∧
    Coverage.Visible {} deeperTree Coverage.sampleRoot [[119]] [[102], [100]] ∧
    ¬deeperTree.HasDirectory [[102], [100], [119]] ∧
    (((start resyncing fileCoverage).run resyncing overflowRun).1.move resyncing
      (.turn deeperTree)).2 = [.handed h] ∧
    h.batch.touches (Coverage.sampleRoot.under [[102], [100]]) = false :=
  ⟨⟨[], [.changed (Coverage.sampleRoot.under [[97]])], 100⟩, since_overflowRun, by decide,
    ⟨⟨trivial, by decide, rfl⟩, by decide, rfl⟩, by decide, by decide, by decide⟩

/-! ### Rejected batches -/

/-- A loop that does not wait goes on to wait only when the notifier has answered. -/
theorem Step.answered (hstep : Step plan l m after) (hbusy : l.phase ≠ .waiting)
    (hwaits : after.1.phase = .waiting) : ∃ accepted, ∃ r ∈ after.2, r.answer? = some accepted := by
  cases hstep with
  | came _ phase => exact absurd (phase.symm.trans hwaits) hbusy
  | finished | busy => exact absurd hwaits hbusy
  | @concluded handover accepted => exact ⟨accepted, _, List.mem_singleton_self _, rfl⟩
  | abandoned => cases hwaits
  | idle phase | handled phase | flushed phase | handed phase | stopped phase =>
    exact absurd phase hbusy

/-- When the burst closes and something is recorded, then the notifier has a batch. -/
theorem busy_of_flushes (hflushes : l.Flushes m) (hsome : (l.move plan m).2 ≠ []) :
    (l.move plan m).1.phase ≠ .waiting := by
  cases m with
  | outside stimulus => exact hflushes.elim
  | turn fs =>
    revert hsome
    rw [move_of_isDue hflushes]
    dsimp only
    split
    · exact fun hsome => absurd rfl hsome
    · exact fun _ => nofun

/-- Say a batch was rejected and none was accepted since, and the burst has not closed with nothing
to hand over since the latest rejection. If the loop waits, then a loss is to be made good. -/
theorem owes_or_busy (hrejected : l.Since plan (Answers plan false) (Answers plan true) ms)
    (hmarked : ¬l.Since plan (Lapses plan) (Answers plan false) ms) :
    l.Owes plan ms ∨ (l.run plan ms).1.phase ≠ .waiting := by
  induction ms using List.reverseRecOn with
  | nil => exact absurd hrejected not_since_nil
  | append_singleton ms m ih =>
    rw [since_concat] at hrejected hmarked
    obtain ⟨hsome, hmarked⟩ := not_or.mp hmarked
    by_cases hagain : (l.run plan ms).1.Answers plan false m
    · exact .inl (since_concat.mpr (.inl hagain.loses))
    obtain ⟨hrejected, hunaccepted⟩ := hrejected.resolve_left hagain
    rw [run_append]
    -- The burst closes only by handing a batch over, and then the loop is busy until the notifier
    -- answers, which it does neither way here.
    rcases ih hrejected fun hlapsed => hmarked ⟨hlapsed, hagain⟩ with howes | hbusy
    · by_cases hcleans : (l.run plan ms).1.Cleans m
      · exact .inr (busy_of_flushes hcleans.1 fun hnone => hsome ⟨hcleans.1, hnone⟩)
      · exact .inl (since_concat.mpr (.inr ⟨howes, hcleans⟩))
    · refine .inr fun hwaits => ?_
      obtain ⟨_ | _, hanswers⟩ := (step_move plan (l.run plan ms).1 m).answered hbusy hwaits
      · exact hagain hanswers
      · exact hunaccepted hanswers

/-- **Reconvergence after a rejection.** Say the notifier has rejected the batch of `h` and accepted
none since, and the burst has not closed with nothing to hand over since the latest rejection. Then
the next batch tells of every path in the batch of `h` that is listed as a file when the next batch
is handed over. -/
theorem reconverges (coverage : Coverage) (hresync : plan.resync = true)
    (hrejected : (start plan coverage).Since plan
      (fun l m => .concluded h false ∈ (l.move plan m).2) (Answers plan true) ms)
    (hmarked : ¬(start plan coverage).Since plan (Lapses plan) (Answers plan false) ms)
    (hnext : .handed h' ∈ (((start plan coverage).run plan ms).1.move plan (.turn fs)).2) :
    ∀ p, h.batch.touches p = true →
      (∃ d ∈ ((start plan coverage).run plan ms).1.intake.coverage.directories, ∃ x,
        Coverage.HoldsFile fs plan.scope d x ∧ x.Same p) →
      h'.batch.touches p = true := by
  rintro p - ⟨d, hd, x, hx, hsame⟩
  have hanswered : (start plan coverage).Since plan (Answers plan false) (Answers plan true) ms :=
    hrejected.imp (fun _ _ hmem => ⟨_, hmem, rfl⟩) fun _ _ => id
  have hdue := isDue_of_handed hnext
  have howes := (owes_or_busy hanswered hmarked).resolve_right fun hbusy => hbusy hdue.phase
  obtain ⟨h'', hmem, hreported⟩ := handed_of_dirty hdue ((dirty_run hresync coverage ms).mpr howes)
    (Coverage.mem_files_iff.mpr ⟨d, hd, hx⟩)
  obtain rfl : h' = h'' := by rw [eq_of_handed hnext, eq_of_handed hmem]
  exact (Batch.touches_iff _ _).mpr ⟨_, hreported, hsame⟩

/-! #### Rejections

The batch that tells of `/w/a` is rejected, and then the file `b` appears. -/

/-- The tree with `/w/b`. -/
def otherTree : FileSystem := Coverage.sampleTree.insert [[119]] [98] (.file "")

/-- If `a` was changed, then the batch after the rejected one tells of it again. -/
theorem reconverges_changed : ∃ h',
    .handed h' ∈ (((start resyncing fileCoverage).run resyncing rejectedRun).1.move resyncing
      (.turn bothTree)).2 ∧
    h'.batch.touches (Coverage.sampleRoot.under [[97]]) = true := by
  let a := Coverage.sampleRoot.under [[97]]
  let b := Coverage.sampleRoot.under [[98]]
  have hnext : .handed ⟨[.created b], [.changed a, .changed b], 200⟩ ∈
      (((start resyncing fileCoverage).run resyncing rejectedRun).1.move resyncing
        (.turn bothTree)).2 := by decide
  refine ⟨_, hnext, ?_⟩
  refine reconverges fileCoverage (h := ⟨[.changed a], [], 100⟩) rfl ?_
    (not_since_of_along (by decide)) hnext a (by decide) ?_
  · exact ⟨(delivery fileTree (.modify .any) [97] false).take 4, .outside (.answer false),
      (delivery bothTree (.create .file) [98] true).take 3, rfl, by decide, by decide⟩
  · exact ⟨Coverage.sampleRoot, by decide, a, Coverage.mem_filesIn_iff.mp (by decide),
      Path.same_refl _⟩

/-- If `a` was deleted, then the batch after the rejected one does not tell of it. The same goes if
`a` was changed, and a burst closed with nothing to hand over while `a` was away. -/
theorem not_reconverged :
    (∃ h h', ((start resyncing fileCoverage).run resyncing
        (delivery Coverage.sampleTree (.remove .file) [97] false ++
          delivery otherTree (.create .file) [98] true)).2.filter (·.answer?.isSome) =
        [.concluded h false, .concluded h' true] ∧
      h.batch.touches (Coverage.sampleRoot.under [[97]]) = true ∧
      h'.batch.touches (Coverage.sampleRoot.under [[97]]) = false) ∧
    ∃ h h', ((start resyncing fileCoverage).run resyncing
        (delivery fileTree (.modify .any) [97] false ++
          [.outside (.arrive overflow), .turn Coverage.sampleTree, .outside (.advance 100),
            .turn Coverage.sampleTree] ++
          delivery bothTree (.create .file) [98] true)).2.filter (·.answer?.isSome) =
        [.concluded h false, .concluded h' true] ∧
      h.batch.touches (Coverage.sampleRoot.under [[97]]) = true ∧
      Coverage.HoldsFile bothTree {} Coverage.sampleRoot (Coverage.sampleRoot.under [[97]]) ∧
      h'.batch.touches (Coverage.sampleRoot.under [[97]]) = false := by
  let a := Coverage.sampleRoot.under [[97]]
  let b := Coverage.sampleRoot.under [[98]]
  constructor
  · exact ⟨⟨[.deleted a], [], 100⟩, ⟨[.created b], [.changed b], 200⟩, by decide, by decide,
      by decide⟩
  · exact ⟨⟨[.changed a], [], 100⟩, ⟨[.created b], [], 300⟩, by decide, by decide,
      Coverage.mem_filesIn_iff.mp (by decide), by decide⟩

end Loop

end WorkspaceWatch
