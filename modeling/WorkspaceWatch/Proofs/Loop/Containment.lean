import WorkspaceWatch.Proofs.Coverage.Files
import WorkspaceWatch.Proofs.Coverage.Growth
import WorkspaceWatch.Proofs.Loop.Reading
import WorkspaceWatch.Proofs.Loop.Resync

/-!
# What surfaces

A path surfaces when it is registered or handed to the notifier. There are four ways to that: a walk
begins at it, a walk finds it, a signal names it, or it is listed in a report. On each of them what
is ignored is left out, and a walk or a report names only entries of directories that are
registered; so as long as the signals stay within the root, nothing surfaces that does not lie
there or is ignored (`Loop.contained_run`). Only the root itself is registered without regard to
whether it is ignored.
-/

namespace WorkspaceWatch

/-- The path lies at or below the root and is not ignored. -/
def Scope.Admits (scope : Scope) (root p : Path) : Prop :=
  p.Within root ∧ scope.ignore.ignores p = false

namespace Coverage

variable {fs : FileSystem} {scope : Scope} {policy : Backend.Policy} {strict : Bool}
  {c : Coverage} {root dir p : Path}

/-- Nothing is registered but the root and what is admitted below it. -/
def IsContained (scope : Scope) (root : Path) (c : Coverage) : Prop :=
  ∀ d ∈ c.directories, d = root ∨ scope.Admits root d

/-- Entries of the root and of what is admitted are admitted unless they are ignored. -/
theorem admits_child {v : Place} {names : List Name} {name : Name}
    (hdir : dir = root ∨ scope.Admits root dir) (hlist : fs.list dir = .ok (v, names))
    (hname : name ∈ names) (hkept : scope.ignore.ignores (dir.child name) = false) :
    scope.Admits root (dir.child name) := by
  rw [← (FileSystem.list_eq_ok_iff.mp hlist).2] at hname
  obtain ⟨node, hnode⟩ := fs.mem_names_iff.mp hname
  have hwithin : dir.Within root := hdir.elim (fun heq => heq ▸ dir.within_refl) And.left
  have hchild : (dir.child name).Within dir := by
    rw [Path.Within, Path.components_child dir (fs.isProperName_of_node? hnode)]
    exact List.prefix_append _ _
  exact ⟨hchild.trans hwithin, hkept⟩

theorem admits_of_mem_kept {v : Place} {names : List Name}
    (hdir : dir = root ∨ scope.Admits root dir) (hlist : fs.list dir = .ok (v, names))
    (hp : p ∈ scope.kept dir names) : scope.Admits root p := by
  obtain ⟨hmem, hkept⟩ := List.mem_filter.mp hp
  obtain ⟨name, hname, rfl⟩ := List.mem_map.mp hmem
  exact admits_child hdir hlist hname (by simpa using hkept)

/-- A walk from an admitted directory, or from the root, registers and finds what is admitted. -/
theorem IsContained.walk (hc : c.IsContained scope root) (fs : FileSystem) (policy : Backend.Policy)
    (strict : Bool) (hdir : dir = root ∨ scope.Admits root dir) :
    (Coverage.walk fs scope policy strict c dir).1.coverage.IsContained scope root ∧
      ∀ p ∈ (Coverage.walk fs scope policy strict c dir).1.found, scope.Admits root p := by
  -- The walk begins at the root, which may be ignored, or at what is admitted, and it goes on to
  -- what is admitted only.
  refine walk_keeps (Q := fun d => d = root ∨ scope.Admits root d)
    (P := fun w => w.coverage.IsContained scope root ∧ ∀ p ∈ w.found, scope.Admits root p)
    (fun hd hleads => ?_) id (fun {w d} hd _ _ hw => ?_) (fun {w d v names} hd hlist hw => ?_) id
    (fun _ hw => hw) hdir ⟨hc, by simp⟩
  · obtain ⟨⟨v, names, hlist, hkept⟩, -⟩ := hleads
    exact .inr (admits_of_mem_kept hd hlist hkept)
  · refine ⟨fun d' hd' => ?_, hw.2⟩
    rcases List.mem_append.mp hd' with hd' | hd'
    · exact hw.1 d' hd'
    · exact List.mem_singleton.mp hd' ▸ hd
  · refine ⟨hw.1, fun p hp => ?_⟩
    rcases List.mem_append.mp hp with hp | hp
    · exact hw.2 p hp
    · exact admits_of_mem_kept hd hlist hp

theorem isContained_registerRoot (fs : FileSystem) (scope : Scope) (policy : Backend.Policy)
    (tally : Tally) (root : Path) :
    (registerRoot fs scope policy { tally } root).1.IsContained scope root := by
  have hnone : IsContained scope root { tally } := by simp [IsContained]
  have hwalk := (hnone.walk fs policy true (.inl rfl)).1
  intro d hd
  rcases directories_registerRoot fs scope policy { tally } root with hall | hnothing
  · exact hwalk d (hall ▸ hd)
  · rw [hnothing] at hd
    cases hd

theorem IsContained.registerCreated (hc : c.IsContained scope root) (fs : FileSystem)
    (policy : Backend.Policy) (hdir : scope.Admits root dir) :
    (c.registerCreated fs scope policy dir).1.IsContained scope root ∧
      ∀ p ∈ (c.registerCreated fs scope policy dir).2, scope.Admits root p := by
  have hwalk := hc.walk fs policy false (.inr hdir)
  rw [Coverage.registerCreated]
  refine ⟨?_, hwalk.2⟩
  rw [IsContained, (Walk.account_frame _ _).1]
  exact hwalk.1

/-- What a report lists is admitted. -/
theorem IsContained.admits_of_mem_files (hc : c.IsContained scope root)
    (hp : p ∈ c.files fs scope) : scope.Admits root p := by
  obtain ⟨d, hd, v, names, name, hlist, hname, -, rfl, hkept⟩ := mem_files_iff.mp hp
  exact admits_child (hc d hd) hlist hname hkept

end Coverage

/-! ### Signals within the root -/

/-- The notice names only paths at or below the root. -/
def Notice.StaysWithin (root : Path) : Notice → Prop
  | .signal s => ∀ p ∈ s.paths, p.Within root
  | .fault _ => True

instance (root : Path) (notice : Notice) : Decidable (notice.StaysWithin root) :=
  match notice with
  | .signal s => inferInstanceAs (Decidable (∀ p ∈ s.paths, p.Within root))
  | .fault _ => inferInstanceAs (Decidable True)

/-- A notice that arrives with the move names only paths at or below the root. -/
def Move.StaysWithin (root : Path) : Move → Prop
  | .outside (.arrive notice) => notice.StaysWithin root
  | _ => True

instance (root : Path) (m : Move) : Decidable (m.StaysWithin root) :=
  match m with
  | .outside (.arrive notice) => inferInstanceAs (Decidable (notice.StaysWithin root))
  | .outside .close | .outside .cancel | .outside (.advance _) | .outside (.answer _) | .turn _ =>
    inferInstanceAs (Decidable True)

namespace Intake

variable {plan : Plan} {fs : FileSystem} {root : Path} {c : Coverage} {i : Intake} {now : Nat}

theorem absorb_contained (fs : FileSystem) {change : Change} (hc : c.IsContained plan.scope root)
    (hchange : change.path.Within root) :
    (absorb plan fs c change).1.IsContained plan.scope root ∧
      ∀ queued ∈ (absorb plan fs c change).2, plan.scope.Admits root queued.path := by
  have habsorbs := absorbs_absorb plan fs c change
  generalize absorb plan fs c change = after at habsorbs ⊢
  cases habsorbs with
  | ignored => exact ⟨hc, by simp⟩
  | appeared shown =>
    have hobserved : (c.record .eventObserved).IsContained plan.scope root := hc
    obtain ⟨hregistered, hfound⟩ := hobserved.registerCreated fs plan.policy ⟨hchange, shown⟩
    refine ⟨hregistered, fun queued hqueued => ?_⟩
    rcases List.mem_cons.mp hqueued with rfl | hqueued
    · exact ⟨hchange, shown⟩
    · obtain ⟨p, hp, rfl⟩ := List.mem_map.mp hqueued
      exact hfound p hp
  | vanished shown =>
    refine ⟨fun d hd => ?_, by simpa using ⟨hchange, shown⟩⟩
    exact hc d (Coverage.mem_directories_unregister.mp hd).1
  | queued shown => exact ⟨hc, by simpa using ⟨hchange, shown⟩⟩

theorem absorbAll_contained {changes : List Change} (hc : c.IsContained plan.scope root)
    (hchanges : ∀ change ∈ changes, change.path.Within root) :
    (absorbAll plan fs c changes).1.IsContained plan.scope root ∧
      ∀ queued ∈ (absorbAll plan fs c changes).2, plan.scope.Admits root queued.path := by
  induction changes generalizing c with
  | nil => exact ⟨hc, by simp [absorbAll]⟩
  | cons change changes ih =>
    obtain ⟨hchange, hchanges⟩ := List.forall_mem_cons.mp hchanges
    obtain ⟨hfirst, hqueued⟩ := absorb_contained fs hc hchange
    obtain ⟨hrest, hqueued'⟩ := ih hfirst hchanges
    refine ⟨hrest, fun queued hmem => ?_⟩
    rcases List.mem_append.mp hmem with hmem | hmem
    · exact hqueued queued hmem
    · exact hqueued' queued hmem

theorem handle_contained (fs : FileSystem) (now : Nat) {notice : Notice}
    (hc : i.coverage.IsContained plan.scope root)
    (hnotice : notice.StaysWithin root) :
    (i.handle plan fs now notice).1.coverage.IsContained plan.scope root ∧
      ∀ queued ∈ (i.handle plan fs now notice).2, plan.scope.Admits root queued.path := by
  cases notice with
  | fault text => exact ⟨hc, by simp [handle]⟩
  | signal s =>
    refine absorbAll_contained ?_ fun change hchange =>
      hnotice _ (Signal.path_mem_of_mem_changes hchange)
    split
    · rw [noteLoss]
      dsimp only
      split <;> exact hc
    · exact hc

end Intake

/-! ### Runs -/

namespace Loop

variable {plan : Plan} {root : Path} {l : Loop} {m : Move} {after : Loop × List Record}

/-- What is registered and what is pending is admitted, and the notices that wait stay within the
root. -/
structure IsContained (plan : Plan) (root : Path) (l : Loop) : Prop where
  registered : l.intake.coverage.IsContained plan.scope root
  pending : ∀ change ∈ l.pending, plan.scope.Admits root change.path
  queue : ∀ notice ∈ l.queue, notice.StaysWithin root

/-- What a step hands over is admitted, and the loop stays contained. -/
theorem Step.contained (h : Step plan l m after) (hl : l.IsContained plan root)
    (hm : m.StaysWithin root) :
    after.1.IsContained plan root ∧ ∀ handover, .handed handover ∈ after.2 →
      ∀ change ∈ handover.batch.changes, plan.scope.Admits root change.path := by
  cases h with
  | @came stimulus l' intake _ queue =>
    refine ⟨⟨intake ▸ hl.registered, ?_, ?_⟩, by simp⟩
    · rw [Loop.pending, intake]
      exact hl.pending
    · rw [queue]
      intro notice hnotice
      rcases List.mem_append.mp hnotice with hnotice | hnotice
      · exact hl.queue notice hnotice
      · cases stimulus with
        | arrive notice' =>
          rw [admitted] at hnotice
          split at hnotice
          · cases hnotice
          · exact List.mem_singleton.mp hnotice ▸ hm
        | _ => cases hnotice
  | finished | busy | idle => exact ⟨hl, by simp⟩
  | @handled fs notice rest _ _ queue =>
    obtain ⟨hnotice, hrest⟩ := List.forall_mem_cons.mp (queue ▸ hl.queue)
    obtain ⟨hregistered, hqueued⟩ := Intake.handle_contained fs l.clock hl.registered hnotice
    refine ⟨⟨hregistered, fun change hchange => ?_, hrest⟩, by simp⟩
    rw [Loop.pending, Intake.pending_handle] at hchange
    rcases List.mem_append.mp hchange with hchange | hchange
    · exact hl.pending change hchange
    · exact hqueued change hchange
  | flushed _ _ _ _ flush =>
    rw [Intake.eq_of_flush flush]
    exact ⟨⟨hl.registered, by simp [Loop.pending, Burst.cleared, Burst.empty], hl.queue⟩, by simp⟩
  | @handed fs intake handover _ _ _ _ flush =>
    refine ⟨?_, fun handover' hmem change hchange => ?_⟩
    · rw [Intake.eq_of_flush flush]
      exact ⟨hl.registered, by simp [Loop.pending, Burst.cleared, Burst.empty], hl.queue⟩
    · obtain rfl := Record.handed.inj (List.mem_singleton.mp hmem)
      rw [Intake.handover_of_flush flush] at hchange
      rcases List.mem_append.mp hchange with hchange | hchange
      · exact hl.pending change hchange
      · -- What is handed over without having been queued is the report of files.
        rw [Intake.report] at hchange
        split at hchange
        · obtain ⟨p, hp, rfl⟩ := List.mem_map.mp hchange
          exact hl.registered.admits_of_mem_files hp
        · cases hchange
  | concluded =>
    refine ⟨⟨?_, ?_, hl.queue⟩, by simp⟩
    · rename_i accepted _ _
      cases accepted <;> exact hl.registered
    · rw [Loop.pending, Intake.pending_conclude]
      exact hl.pending
  | stopped | abandoned =>
    refine ⟨⟨hl.registered, ?_, ?_⟩, by simp [stop]⟩
    · simp [Loop.pending, stop, Burst.cleared, Burst.empty]
    · simp [stop]

theorem IsContained.run (hl : l.IsContained plan root) {ms : List Move}
    (hms : ∀ m ∈ ms, m.StaysWithin root) :
    (l.run plan ms).1.IsContained plan root ∧ ∀ handover, .handed handover ∈ (l.run plan ms).2 →
      ∀ change ∈ handover.batch.changes, plan.scope.Admits root change.path := by
  induction ms generalizing l with
  | nil => exact ⟨hl, by simp⟩
  | cons m ms ih =>
    obtain ⟨hm, hms⟩ := List.forall_mem_cons.mp hms
    obtain ⟨hafter, hhanded⟩ := (step_move plan l m).contained hl hm
    obtain ⟨hrun, hhanded'⟩ := ih hafter hms
    refine ⟨hrun, fun handover hmem => ?_⟩
    rcases List.mem_append.mp hmem with hmem | hmem
    · exact hhanded handover hmem
    · exact hhanded' handover hmem

/-- **Only what is admitted surfaces.** As long as every signal that arrives after the root was
registered names only paths at or below it, each change in each batch that is handed over is about
such a path, and not about an ignored one, and so is each registered directory but the root. -/
theorem contained_run (fs : FileSystem) (tally : Tally) (root : Path) (plan : Plan)
    (ms : List Move) (hms : ∀ m ∈ ms, m.StaysWithin root) :
    let after := (start plan
      (Coverage.registerRoot fs plan.scope plan.policy { tally } root).1).run plan ms
    (∀ handover, .handed handover ∈ after.2 → ∀ change ∈ handover.batch.changes,
        change.path.Within root ∧ plan.scope.ignore.ignores change.path = false) ∧
      ∀ d ∈ after.1.intake.coverage.directories,
        d = root ∨ d.Within root ∧ plan.scope.ignore.ignores d = false := by
  have hstart : IsContained plan root (start plan
      (Coverage.registerRoot fs plan.scope plan.policy { tally } root).1) :=
    ⟨Coverage.isContained_registerRoot fs plan.scope plan.policy tally root,
      by simp [Loop.pending, start, Burst.empty], by simp [start]⟩
  obtain ⟨hrun, hhanded⟩ := hstart.run hms
  exact ⟨hhanded, hrun.registered⟩

/-- A watch that ignores what is called `b`. -/
def selective : Plan :=
  { scope := { ignore := ⟨[[.literal 'b']]⟩ }, window := 100, resync := true }

/-- In the tree with `/w/a` and `/w/b` a batch about `/w/a` is rejected; the next one reports all
files, of which `/w/b` is none. -/
theorem contained_selective : ∃ handover,
    .handed handover ∈ ((start selective
      (Coverage.registerRoot bothTree selective.scope selective.policy {} Coverage.sampleRoot).1).run
        selective (delivery bothTree (.modify .any) [97] false ++
          delivery bothTree (.modify .any) [98] true ++
          delivery bothTree (.modify .any) [97] true)).2 ∧
    handover.reported = [.changed (Coverage.sampleRoot.under [[97]])] ∧
    ∀ change ∈ handover.batch.changes, change.path.Within Coverage.sampleRoot ∧
      selective.scope.ignore.ignores change.path = false := by
  have hcontained := contained_run bothTree {} Coverage.sampleRoot selective
    (delivery bothTree (.modify .any) [97] false ++ delivery bothTree (.modify .any) [98] true ++
      delivery bothTree (.modify .any) [97] true) (by decide)
  refine ⟨⟨[.changed (Coverage.sampleRoot.under [[97]])],
    [.changed (Coverage.sampleRoot.under [[97]])], 300⟩, ?hmem, rfl, hcontained.1 _ ?hmem⟩
  decide +kernel

end Loop

end WorkspaceWatch
