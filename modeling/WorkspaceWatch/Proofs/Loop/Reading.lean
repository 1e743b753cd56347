import WorkspaceWatch.Proofs.Loop.Conservation

/-!
# Reading signals

The operating system has many words for what happens to paths. Whichever it uses, a signal either
tells that something was read, and yields nothing, or it yields one change for each path that it
names, in the order of the paths. `SignalKind.outcome` tells of what kind the change is. That
depends on the position of the path only in a rename of which both sides are named, and on the file
system only in a rename of which no side is told.

`Signal.changes_eq` says this in one equation, from which `Signal.yields_changes` reads off what
each kind of signal yields. So no path is dropped when a signal is read, and none but the ignored
ones when its changes are taken in (`Intake.sublist_handle`).
-/

namespace WorkspaceWatch

/-! ### What becomes of a path -/

/-- What a rename does to the path at a position. -/
def RenameSide.outcome (side : RenameSide) (fs : FileSystem) (i : Nat) (p : Path) : ChangeKind :=
  match side, i with
  | .new, _ => .created
  | .old, _ => .deleted
  | .both, 0 => .deleted
  | .both, 1 => .created
  | .both, _ + 2 => .changed
  | .any, _ | .other, _ => if fs.hasEntry p then .created else .deleted

/-- What a signal of this kind says of the path at a position. -/
def SignalKind.outcome (kind : SignalKind) (fs : FileSystem) (i : Nat) (p : Path) : ChangeKind :=
  match kind with
  | .create _ => .created
  | .remove _ => .deleted
  | .modify (.name side) => side.outcome fs i p
  | _ => .changed

/-- What is neither created nor removed nor renamed is changed. -/
theorem SignalKind.outcome_of_other {kind : SignalKind} {fs : FileSystem} {i : Nat} {p : Path}
    (hcreate : ∀ e, kind ≠ .create e) (hremove : ∀ e, kind ≠ .remove e)
    (hrename : ∀ side, kind ≠ .modify (.name side)) : kind.outcome fs i p = .changed := by
  cases kind with
  | any | other | access => rfl
  | create e => exact absurd rfl (hcreate e)
  | remove e => exact absurd rfl (hremove e)
  | modify kind =>
    cases kind with
    | name side => exact absurd rfl (hrename side)
    | _ => rfl

private theorem map_eq_mapIdx {f : Path → Change} {kind : Nat → Path → ChangeKind}
    (hf : ∀ i p, f p = ⟨p, kind i p⟩) (paths : List Path) :
    paths.map f = paths.mapIdx fun i p => ⟨p, kind i p⟩ := by
  refine (List.mapIdx_eq_iff.mpr fun i => ?_).symm
  rw [List.getElem?_map]
  exact Option.map_congr fun p _ => hf i p

theorem RenameSide.guess_eq (fs : FileSystem) (p : Path) :
    guess fs p = ⟨p, if fs.hasEntry p then .created else .deleted⟩ := by
  rw [guess]
  split <;> rfl

theorem RenameSide.changes_eq (side : RenameSide) (fs : FileSystem) (paths : List Path) :
    side.changes fs paths = paths.mapIdx fun i p => ⟨p, side.outcome fs i p⟩ := by
  cases side with
  | any | other => exact map_eq_mapIdx (fun _ => guess_eq fs) paths
  | new | old => exact map_eq_mapIdx (fun _ _ => rfl) paths
  | both =>
    rcases paths with _ | ⟨a, _ | ⟨b, rest⟩⟩
    · rfl
    · rfl
    · rw [List.mapIdx_cons, List.mapIdx_cons]
      exact congrArg (.deleted a :: .created b :: ·) (map_eq_mapIdx (fun _ _ => rfl) rest)

namespace Signal

variable {s : Signal} {fs : FileSystem} {change : Change} {i : Nat}

/-- The signal reports that something was read, and nothing else. -/
def isReading (s : Signal) : Bool :=
  match s.kind with
  | .access (.closed .write) => false
  | .access _ => true
  | _ => false

theorem isReading_iff : s.isReading = true ↔ ∃ a, s.kind = .access a ∧ a ≠ .closed .write := by
  obtain ⟨kind, paths, rescan⟩ := s
  cases kind with
  | access a =>
    cases a with
    | closed mode => cases mode <;> simp [isReading]
    | _ => simp [isReading]
  | _ => simp [isReading]

/-- **What a signal is read as.** -/
theorem changes_eq (s : Signal) (fs : FileSystem) :
    s.changes fs =
      if s.isReading then [] else s.paths.mapIdx fun i p => ⟨p, s.kind.outcome fs i p⟩ := by
  obtain ⟨kind, paths, rescan⟩ := s
  cases kind with
  | any | other | create | remove => exact map_eq_mapIdx (fun _ _ => rfl) paths
  | access a =>
    cases a with
    | closed mode =>
      cases mode with
      | write => exact map_eq_mapIdx (fun _ _ => rfl) paths
      | _ => rfl
    | _ => rfl
  | modify kind =>
    cases kind with
    | name side => exact side.changes_eq fs paths
    | _ => exact map_eq_mapIdx (fun _ _ => rfl) paths

/-- The changes that a signal reports are about the paths that it names, one about each, unless
something was only read. -/
theorem map_path_changes (s : Signal) (fs : FileSystem) :
    (s.changes fs).map Change.path = if s.isReading then [] else s.paths := by
  rw [changes_eq]
  split
  · rfl
  · refine List.ext_getElem? fun i => ?_
    rw [List.getElem?_map, List.getElem?_mapIdx, Option.map_map]
    exact congrFun Option.map_id _

theorem path_mem_of_mem_changes {s : Signal} {fs : FileSystem} {change : Change}
    (h : change ∈ s.changes fs) : change.path ∈ s.paths := by
  have hpath := List.mem_map_of_mem (f := Change.path) h
  rw [map_path_changes] at hpath
  split at hpath
  · cases hpath
  · exact hpath

/-- The kind of a change follows from the kind of the signal and from its position. -/
theorem kind_of_getElem? (h : (s.changes fs)[i]? = some change) :
    change.kind = s.kind.outcome fs i change.path := by
  rw [changes_eq] at h
  split at h
  · cases h
  · rw [List.getElem?_mapIdx, Option.map_eq_some_iff] at h
    obtain ⟨p, -, rfl⟩ := h
    rfl

theorem kind_of_mem (h : change ∈ s.changes fs) :
    ∃ i, change.kind = s.kind.outcome fs i change.path := by
  obtain ⟨i, hi⟩ := List.mem_iff_getElem?.mp h
  exact ⟨i, kind_of_getElem? hi⟩

/-! ### Every kind of signal -/

/-- What a signal of each kind yields. -/
structure Yields (s : Signal) (fs : FileSystem) : Prop where
  /-- If something was accessed, and not closed after it was written, that is no change. -/
  nothing : ∀ {a}, s.kind = .access a → a ≠ .closed .write → s.changes fs = []
  /-- In any other case there is one change for each path, in the order of the paths. -/
  paths : (∀ a, s.kind = .access a → a = .closed .write) →
    (s.changes fs).map Change.path = s.paths
  /-- A creation, or the new side of a rename, creates all of them. -/
  created : ((∃ e, s.kind = .create e) ∨ s.kind = .modify (.name .new)) →
    ∀ change ∈ s.changes fs, change.kind = .created
  /-- A removal, or the old side of a rename, deletes all of them. -/
  deleted : ((∃ e, s.kind = .remove e) ∨ s.kind = .modify (.name .old)) →
    ∀ change ∈ s.changes fs, change.kind = .deleted
  /-- A rename of which both sides are named deletes the first path, creates the second one, and
  changes whatever comes after that. -/
  paired : s.kind = .modify (.name .both) → ∀ {i change}, (s.changes fs)[i]? = some change →
    change.kind = if i = 0 then .deleted else if i = 1 then .created else .changed
  /-- A rename of which no side is told creates a path at which there is something, and deletes any
  other. -/
  bare : (s.kind = .modify (.name .any) ∨ s.kind = .modify (.name .other)) →
    ∀ change ∈ s.changes fs,
      change.kind = if fs.hasEntry change.path then .created else .deleted
  /-- Whatever is not a creation, a removal or a rename changes all of them. -/
  changed : (∀ e, s.kind ≠ .create e) → (∀ e, s.kind ≠ .remove e) →
    (∀ side, s.kind ≠ .modify (.name side)) → ∀ change ∈ s.changes fs, change.kind = .changed

/-- **No path is dropped when a signal is read**, whatever its kind, however many paths it names and
whatever there is in the file system, and each path is told of in the way that its kind asks for. -/
theorem yields_changes (s : Signal) (fs : FileSystem) : s.Yields fs where
  nothing := fun hkind hread => by
    rw [changes_eq, if_pos (isReading_iff.mpr ⟨_, hkind, hread⟩)]
  paths := fun hwritten => by
    rw [map_path_changes, if_neg]
    rw [isReading_iff]
    rintro ⟨a, hkind, hread⟩
    exact hread (hwritten a hkind)
  created := fun hkind change hchange => by
    obtain ⟨i, hi⟩ := kind_of_mem hchange
    rcases hkind with ⟨e, hkind⟩ | hkind <;> rw [hi, hkind] <;> rfl
  deleted := fun hkind change hchange => by
    obtain ⟨i, hi⟩ := kind_of_mem hchange
    rcases hkind with ⟨e, hkind⟩ | hkind <;> rw [hi, hkind] <;> rfl
  paired := fun hkind i change hchange => by
    rw [kind_of_getElem? hchange, hkind]
    rcases i with _ | _ | i <;> rfl
  bare := fun hkind change hchange => by
    obtain ⟨i, hi⟩ := kind_of_mem hchange
    rcases hkind with hkind | hkind <;> rw [hi, hkind] <;> rfl
  changed := fun hcreate hremove hrename change hchange => by
    obtain ⟨i, hi⟩ := kind_of_mem hchange
    exact hi.trans (SignalKind.outcome_of_other hcreate hremove hrename)

end Signal

/-! ### Taking in what was read -/

namespace Intake

variable {plan : Plan} {fs : FileSystem} {c : Coverage} {i : Intake} {now : Nat}

/-- Whatever else is queued, all changes are queued that are not ignored, in order. -/
theorem sublist_absorbAll (changes : List Change) :
    (changes.filter fun change => !plan.scope.ignore.ignores change.path).Sublist
      (absorbAll plan fs c changes).2 := by
  induction changes generalizing c with
  | nil => exact List.Sublist.refl _
  | cons change changes ih =>
    have hrest := ih (c := (absorb plan fs c change).1)
    have habsorbs := absorbs_absorb plan fs c change
    rw [absorbAll]
    dsimp only
    generalize absorb plan fs c change = after at habsorbs hrest ⊢
    cases habsorbs with
    | ignored hidden => simpa [List.filter_cons, hidden] using hrest
    | appeared shown | vanished shown | queued shown =>
      rw [List.filter_cons_of_pos (by simp [shown])]
      exact (hrest.trans (List.sublist_append_right _ _)).cons_cons _

/-- **No path is dropped when a signal is taken in** but the ignored ones: what is queued names all
others, in the order in which the signal names them. -/
theorem sublist_handle {s : Signal} (hchanges : s.isReading = false) :
    (s.paths.filter fun p => !plan.scope.ignore.ignores p).Sublist
      ((i.handle plan fs now (.signal s)).2.map Change.path) := by
  have hpaths : (s.changes fs).map Change.path = s.paths := by
    rw [Signal.map_path_changes, if_neg (by simp [hchanges])]
  have hshown : ((s.changes fs).filter fun change => !plan.scope.ignore.ignores change.path).map
      Change.path = s.paths.filter fun p => !plan.scope.ignore.ignores p := by
    rw [← hpaths, List.filter_map]
    rfl
  rw [← hshown]
  exact (sublist_absorbAll (s.changes fs)).map Change.path

end Intake

end WorkspaceWatch
