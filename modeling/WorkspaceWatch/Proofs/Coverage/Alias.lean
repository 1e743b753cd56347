import Mathlib.Data.List.Pairwise
import WorkspaceWatch.Proofs.Coverage.Exact
import WorkspaceWatch.Proofs.Coverage.Invariant
import WorkspaceWatch.Proofs.FileSystem.Canonical

/-!
# Paths that lead to one place

Where links are followed, several paths may lead to one directory. A walk recognises a directory by
its canonical path and visits none twice, so the paths that it registers lead to different places as
far as they have canonical paths (`Coverage.pairwise_added`). But it looks only at what it has
visited itself, and a file system may change.

`History` is what has happened to a file system and to a watch in it. `History.united` accounts for
every two registered paths that lead to one place: either the file system was changed so while both
were registered, or one of them was registered when the other was registered already, or one walk
has registered both and one of them had no canonical path; and since then both led there.
-/

namespace WorkspaceWatch

/-- Two paths lead to one place. -/
def FileSystem.Aliases (fs : FileSystem) (p q : Path) : Prop :=
  ∃ v, fs.place p = .ok v ∧ fs.place q = .ok v

theorem FileSystem.Aliases.symm {fs : FileSystem} {p q : Path} (h : fs.Aliases p q) :
    fs.Aliases q p := by
  obtain ⟨v, hp, hq⟩ := h
  exact ⟨v, hq, hp⟩

/-- What the path leads to has no canonical path. -/
def FileSystem.IsUnnamed (fs : FileSystem) (p : Path) : Prop := ∃ e, fs.canonicalize p = .error e

/-- Two paths that lead to one place have one canonical path, if both have one. -/
theorem FileSystem.Aliases.landmark_eq {fs : FileSystem} {p q : Path} (h : fs.Aliases p q)
    (hp : ¬fs.IsUnnamed p) (hq : ¬fs.IsUnnamed q) :
    Coverage.Walk.landmark fs p = Coverage.Walk.landmark fs q := by
  obtain ⟨v, hpv, hqv⟩ := h
  have hlandmark : ∀ {p}, fs.place p = .ok v → ¬fs.IsUnnamed p →
      Coverage.Walk.landmark fs p = v.path := fun {p} hplace hnamed => by
    obtain ⟨node, hlocate⟩ := exists_locate_of_place hplace
    rw [Coverage.Walk.landmark]
    rcases canonicalize_of_locate hlocate with hok | ⟨e, he, -⟩
    · rw [hok]
      rfl
    · exact absurd ⟨e, he⟩ hnamed
  rw [hlandmark hpv hp, hlandmark hqv hq]

theorem FileSystem.aliases_iff {fs : FileSystem} {p q : Path} :
    ((fs.place p).toOption.any fun v => (fs.place q).toOption = some v) = true ↔
      fs.Aliases p q := by
  cases hp : fs.place p <;> cases hq : fs.place q <;>
    simp [FileSystem.Aliases, Except.toOption, hp, hq, eq_comm]

instance (fs : FileSystem) (p q : Path) : Decidable (fs.Aliases p q) :=
  decidable_of_iff _ FileSystem.aliases_iff

namespace Coverage

variable {fs : FileSystem} {scope : Scope} {w : Walk} {dir : Path}

/-! ### One walk -/

/-- A walk recognises the directories that it has registered, each under one path. -/
structure Walk.IsApart (fs : FileSystem) (w : Walk) : Prop where
  apart : w.added.Pairwise fun p q => Walk.landmark fs p ≠ Walk.landmark fs q
  visited : ∀ p ∈ w.added, Walk.landmark fs p ∈ w.visited

theorem Walk.IsApart.noted (h : w.IsApart fs) : (w.noted fs scope dir).IsApart fs where
  apart := h.apart
  visited := fun p hp => by
    rw [Walk.noted]
    dsimp only
    split
    · exact List.mem_cons_of_mem _ (h.visited p hp)
    · exact h.visited p hp

/-- A directory that the walk does not recognise is none of those that were registered. -/
theorem Walk.IsApart.enrol (hlinks : scope.followLinks = true) (h : w.IsApart fs)
    (hnew : w.hasVisited fs scope dir = false) :
    Walk.IsApart fs { w.noted fs scope dir with
      coverage := w.coverage.enrolled dir, added := w.added ++ [dir] } where
  apart := by
    refine List.pairwise_append.mpr ⟨h.apart, List.pairwise_singleton _ _, ?_⟩
    intro p hp q hq heq
    rw [List.mem_singleton.mp hq] at heq
    rw [Walk.hasVisited, hlinks, Bool.true_and, List.any_eq_false] at hnew
    exact hnew _ (h.visited p hp) (by simp [heq, Path.same_refl])
  visited := by
    intro p hp
    rcases List.mem_append.mp hp with hp | hp
    · exact h.noted.visited p hp
    · rw [List.mem_singleton.mp hp]
      show Walk.landmark fs dir ∈ if scope.followLinks = true then _ else _
      rw [if_pos hlinks]
      exact List.mem_cons_self

/-- **The paths that one walk registers lead to different places**, as far as they have canonical
paths. -/
theorem pairwise_added (fs : FileSystem) (hlinks : scope.followLinks = true)
    (policy : Backend.Policy) (strict : Bool) (c : Coverage) (start : Path) :
    (walk fs scope policy strict c start).1.added.Pairwise fun p q =>
      fs.Aliases p q → fs.IsUnnamed p ∨ fs.IsUnnamed q := by
  have hbegun : Walk.IsApart fs { coverage := c } := ⟨List.Pairwise.nil, by simp⟩
  have hapart : Walk.IsApart fs (walk fs scope policy strict c start).1 :=
    walk_keeps (Q := fun _ => True) (fun _ _ => trivial) Walk.IsApart.noted
      (fun _ hnew _ hw => hw.enrol hlinks hnew) (fun _ _ hw => ⟨hw.apart, hw.visited⟩) id
      (fun _ hw => ⟨hw.apart, hw.visited⟩) trivial hbegun
  refine hapart.apart.imp fun {p q} hne halias => ?_
  by_contra hnamed
  rw [not_or] at hnamed
  exact hne (halias.landmark_eq hnamed.1 hnamed.2)

/-- Of two paths that lead to one place and that one walk has registered, one has no canonical
path. -/
theorem isUnnamed_of_mem_added {policy : Backend.Policy} {strict : Bool} {c : Coverage}
    {start d d' : Path} (hlinks : scope.followLinks = true) (hne : d ≠ d')
    (halias : fs.Aliases d d') (hd : d ∈ (walk fs scope policy strict c start).1.added)
    (hd' : d' ∈ (walk fs scope policy strict c start).1.added) :
    fs.IsUnnamed d ∨ fs.IsUnnamed d' := by
  have : Std.Symm fun p q => fs.Aliases p q → fs.IsUnnamed p ∨ fs.IsUnnamed q :=
    ⟨fun _ _ hpq hqp => (hpq hqp.symm).symm⟩
  exact (pairwise_added fs hlinks policy strict c start).forall hd hd' hne halias

/-- In between, when `before` and then `after` were registered, both paths were registered or one
joined the other. Both came together only if one of them had no canonical path. -/
def Joins (fs : FileSystem) (before after : List Path) (d d' : Path) : Prop :=
  (d ∈ before ∧ d' ∉ before ∨ d' ∈ before ∧ d ∉ before ∨
    d ∉ before ∧ d' ∉ before ∧ (fs.IsUnnamed d ∨ fs.IsUnnamed d')) ∧ d ∈ after ∧ d' ∈ after

end Coverage

/-! ### One notice -/

namespace Intake

variable {plan : Plan} {fs : FileSystem} {c : Coverage} {change : Change} {changes : List Change}
  {d d' : Path}

/-- What is registered after a change was absorbed: nothing new, or what one walk has added. -/
theorem directories_absorb (plan : Plan) (fs : FileSystem) (c : Coverage) (change : Change) :
    (absorb plan fs c change).1.directories ⊆ c.directories ∨
      (absorb plan fs c change).1.directories = c.directories ++
        (Coverage.walk fs plan.scope plan.policy false (c.record .eventObserved)
          change.path).1.added := by
  have habsorbs := absorbs_absorb plan fs c change
  generalize absorb plan fs c change = after at habsorbs ⊢
  cases habsorbs with
  | ignored | queued => exact .inl (List.Subset.refl c.directories)
  | vanished => exact .inl fun d hd => (Coverage.mem_directories_unregister.mp hd).1
  | appeared =>
    obtain ⟨⟨asked, hgrew⟩, -⟩ := Coverage.grew_registerCreated fs plan.scope plan.policy
      (c.record .eventObserved) change.path
    exact .inr hgrew.directories

/-- In absorbing one of the changes one of two paths has joined the other, or both were
registered. -/
def Joins (plan : Plan) (fs : FileSystem) (c : Coverage) (changes : List Change) (d d' : Path) :
    Prop :=
  ∃ done change rest, changes = done ++ change :: rest ∧
    let c₁ := (absorbAll plan fs c done).1
    Coverage.Joins fs c₁.directories (absorb plan fs c₁ change).1.directories d d'

theorem Joins.later (h : Joins plan fs (absorb plan fs c change).1 changes d d') :
    Joins plan fs c (change :: changes) d d' := by
  obtain ⟨done, change', rest, rfl, h⟩ := h
  exact ⟨change :: done, change', rest, rfl, h⟩

/-- Two paths that lead to one place and are registered after a change was absorbed were registered
before, or they have joined. -/
theorem registered_or_joins (hlinks : plan.scope.followLinks = true) (hne : d ≠ d')
    (halias : fs.Aliases d d') (hd : d ∈ (absorb plan fs c change).1.directories)
    (hd' : d' ∈ (absorb plan fs c change).1.directories) :
    d ∈ c.directories ∧ d' ∈ c.directories ∨ Joins plan fs c (change :: changes) d d' := by
  by_cases hold : d ∈ c.directories ∧ d' ∈ c.directories
  · exact .inl hold
  refine .inr ⟨[], change, changes, rfl, ?_, hd, hd'⟩
  show d ∈ c.directories ∧ d' ∉ c.directories ∨ d' ∈ c.directories ∧ d ∉ c.directories ∨
    d ∉ c.directories ∧ d' ∉ c.directories ∧ (fs.IsUnnamed d ∨ fs.IsUnnamed d')
  by_cases hone : d ∈ c.directories
  · exact .inl ⟨hone, fun hother => hold ⟨hone, hother⟩⟩
  by_cases hother : d' ∈ c.directories
  · exact .inr (.inl ⟨hother, hone⟩)
  refine .inr (.inr ⟨hone, hother, ?_⟩)
  rcases directories_absorb plan fs c change with hsub | heq
  · exact absurd (hsub hd) hone
  · rw [heq, List.mem_append] at hd hd'
    exact Coverage.isUnnamed_of_mem_added hlinks hne halias (hd.resolve_left hone)
      (hd'.resolve_left hother)

theorem registered_or_joins_all (hlinks : plan.scope.followLinks = true) (hne : d ≠ d')
    (halias : fs.Aliases d d') (hd : d ∈ (absorbAll plan fs c changes).1.directories)
    (hd' : d' ∈ (absorbAll plan fs c changes).1.directories) :
    d ∈ c.directories ∧ d' ∈ c.directories ∨ Joins plan fs c changes d d' := by
  induction changes generalizing c with
  | nil => exact .inl ⟨hd, hd'⟩
  | cons change changes ih =>
    rcases ih hd hd' with ⟨hd, hd'⟩ | hjoins
    · exact registered_or_joins hlinks hne halias hd hd'
    · exact .inr hjoins.later

/-- What a signal finds: a loss that it reports is noted before its changes are absorbed. -/
def heed (plan : Plan) (now : Nat) (i : Intake) (s : Signal) : Intake :=
  if s.rescan then noteLoss plan now i else i

theorem directories_heed (plan : Plan) (now : Nat) (i : Intake) (s : Signal) :
    (i.heed plan now s).coverage.directories = i.coverage.directories := by
  rw [heed, noteLoss]
  split
  · dsimp only
    split <;> rfl
  · rfl

end Intake

/-! ### Histories -/

/-- What has happened to a file system and to a watch of a tree in it. -/
inductive History where
  /-- The root was registered. -/
  | begun (fs : FileSystem)
  /-- The file system has become this one. -/
  | changed (before : History) (fs : FileSystem)
  /-- A notice was handled, at that time. -/
  | handled (before : History) (now : Nat) (notice : Notice)

namespace History

/-- The file system as it is now. -/
def fs : History → FileSystem
  | begun fs => fs
  | changed _ fs => fs
  | handled before _ _ => before.fs

variable (plan : Plan) (tally : Tally) (root : Path)

/-- What the watch keeps now. -/
def intake : History → Intake
  | begun fs =>
    { coverage := (Coverage.registerRoot fs plan.scope plan.policy { tally } root).1
      burst := .empty plan.window }
  | changed before _ => before.intake
  | handled before now notice => (before.intake.handle plan before.fs now notice).1

/-- The directories that are registered now. -/
def directories (h : History) : List Path := (h.intake plan tally root).coverage.directories

/-- Both paths are registered now and lead to one place. -/
def Together (d d' : Path) (h : History) : Prop :=
  d ∈ h.directories plan tally root ∧ d' ∈ h.directories plan tally root ∧ h.fs.Aliases d d'

/-- No two registered paths lead to one place. -/
def IsApart (h : History) : Prop :=
  (h.directories plan tally root).Pairwise fun d d' => ¬h.fs.Aliases d d'

instance (h : History) : Decidable (h.IsApart plan tally root) :=
  inferInstanceAs (Decidable (List.Pairwise _ _))

/-- How two registered paths have come to lead to one place: the file system was changed so when
they were registered, or they have joined; and they have been registered and led to one place ever
since. -/
def Unites (d d' : Path) : History → Prop
  | begun fs => Coverage.Joins fs [] ((begun fs).directories plan tally root) d d'
  | changed before _ =>
    before.Together plan tally root d d' ∧ before.Unites d d' ∨
      d ∈ before.directories plan tally root ∧ d' ∈ before.directories plan tally root ∧
        ¬before.fs.Aliases d d'
  | handled before now notice =>
    before.Together plan tally root d d' ∧ before.Unites d d' ∨
      ∃ s, notice = .signal s ∧ Intake.Joins plan before.fs
        ((before.intake plan tally root).heed plan now s).coverage (s.changes before.fs) d d'

variable {plan tally root} {d d' : Path}

theorem directories_begun (plan : Plan) (tally : Tally) (root : Path) (fs : FileSystem) :
    (begun fs).directories plan tally root = [] ∨ (begun fs).directories plan tally root =
      (Coverage.walk fs plan.scope plan.policy true { tally } root).1.added := by
  obtain ⟨⟨asked, hgrew⟩, -⟩ :=
    Coverage.grew_walk fs plan.scope plan.policy true { tally } root
  rcases Coverage.directories_registerRoot fs plan.scope plan.policy { tally } root with
    hall | hnothing
  · exact .inr (hall.trans hgrew.directories)
  · exact .inl hnothing

/-- No directory is registered twice. -/
theorem isDistinct (h : History) : (h.intake plan tally root).coverage.IsDistinct := by
  have hkept := Coverage.isInvariant_isDistinct plan.policy
  induction h with
  | begun fs => exact hkept.registerRoot root List.Pairwise.nil
  | changed before fs ih => exact ih
  | handled before now notice ih => exact hkept.handle notice ih

theorem Together.unites {h : History} (hlinks : plan.scope.followLinks = true)
    (htogether : h.Together plan tally root d d') (hne : d ≠ d') :
    h.Unites plan tally root d d' := by
  induction h with
  | begun fs =>
    -- All that is registered now was registered by one walk.
    obtain ⟨hd, hd', halias⟩ := htogether
    refine ⟨.inr (.inr ⟨List.not_mem_nil, List.not_mem_nil, ?_⟩), hd, hd'⟩
    rcases directories_begun plan tally root fs with hnone | hadded
    · rw [hnone] at hd
      cases hd
    · rw [hadded] at hd hd'
      exact Coverage.isUnnamed_of_mem_added hlinks hne halias hd hd'
  | changed before fs ih =>
    obtain ⟨hd, hd', -⟩ := htogether
    by_cases halias : before.fs.Aliases d d'
    · exact .inl ⟨⟨hd, hd', halias⟩, ih ⟨hd, hd', halias⟩⟩
    · exact .inr ⟨hd, hd', halias⟩
  | handled before now notice ih =>
    obtain ⟨hd, hd', halias⟩ := htogether
    cases notice with
    | fault text => exact .inl ⟨⟨hd, hd', halias⟩, ih ⟨hd, hd', halias⟩⟩
    | signal s =>
      -- The changes find the file system as it is now, so both led to one place before each.
      have hcases := Intake.registered_or_joins_all
        (c := ((before.intake plan tally root).heed plan now s).coverage) hlinks hne halias hd hd'
      rw [Intake.directories_heed] at hcases
      rcases hcases with ⟨hd, hd'⟩ | hjoins
      · exact .inl ⟨⟨hd, hd', halias⟩, ih ⟨hd, hd', halias⟩⟩
      · exact .inr ⟨s, rfl, hjoins⟩

/-- **How registered paths come to lead to one place.** Links are followed. Whatever has happened
since the root was registered, two registered paths lead to different places, unless a change of the
file system made these two lead to one place, or one of them was registered when the other was, or
one walk registered both while one of them had no canonical path. -/
theorem united (plan : Plan) (hlinks : plan.scope.followLinks = true) (tally : Tally) (root : Path)
    (h : History) : (h.directories plan tally root).Pairwise fun d d' =>
      h.fs.Aliases d d' → h.Unites plan tally root d d' := by
  have hdistinct : (h.directories plan tally root).Pairwise fun d d' => ¬d.Same d' := h.isDistinct
  refine hdistinct.imp_of_mem fun {d d'} hd hd' hsame halias => ?_
  have hne : d ≠ d' := fun heq => hsame (heq ▸ d.same_refl)
  exact Together.unites hlinks ⟨hd, hd', halias⟩ hne

/-! ### Two runs

In the first, a link to a registered directory appears. In the second `/w/l` leads through the link
`/w/h` to `/w/b`, until `/w/h` is replaced by a link to `/w/a`. -/

/-- The tree `/w` with the directory `/w/a`. -/
def nestTree : FileSystem := Coverage.sampleTree.insert [[119]] [97] (.directory {})

/-- The tree after the link `/w/l` to `a` has appeared in it. -/
def linkedTree : FileSystem := nestTree.insert [[119]] [108] (.link [97])

/-- The tree with `/w/a` and `/w/b`, in which `/w/h` leads to `b` and `/w/l` to `h`. -/
def nearTree : FileSystem :=
  ((nestTree.insert [[119]] [98] (.directory {})).insert [[119]] [104] (.link [98])).insert
    [[119]] [108] (.link [104])

/-- The tree in which `/w/h` is gone. -/
def brokenTree : FileSystem := nearTree.removeTree [[104], [119]]

/-- The tree in which `/w/h` leads to `/w/a`. -/
def farTree : FileSystem := brokenTree.insert [[119]] [104] (.link [97])

/-- The path `/w/name`. -/
def samplePath (name : Name) : Path := Coverage.sampleRoot.under [name]

/-- A watch that follows links. -/
def following : Plan := { scope := { followLinks := true }, window := 100 }

/-- The signal that something has happened to `/w/name`. -/
def sampleSignal (kind : SignalKind) (name : Name) : Signal := { kind, paths := [samplePath name] }

/-- A link to a registered directory appears. -/
def linkedHistory : History :=
  ((begun nestTree).changed linkedTree).handled 5 (.signal (sampleSignal (.create .file) [108]))

/-- The link `/w/h` is gone. -/
def brokenHistory : History :=
  ((begun nearTree).changed brokenTree).handled 5 (.signal (sampleSignal (.remove .file) [104]))

/-- The link `/w/h` has come back and leads elsewhere. -/
def replacedHistory : History :=
  (brokenHistory.changed farTree).handled 9 (.signal (sampleSignal (.create .file) [104]))

/-- `/w/l` has joined `/w/a`: it was registered when `/w/a` was. -/
theorem united_linked : following.scope.followLinks = true ∧
    linkedHistory.Together following {} Coverage.sampleRoot (samplePath [97]) (samplePath [108]) ∧
    linkedHistory.Unites following {} Coverage.sampleRoot (samplePath [97]) (samplePath [108]) := by
  have hunited := united following rfl {} Coverage.sampleRoot linkedHistory
  have hdirectories : linkedHistory.directories following {} Coverage.sampleRoot =
      [Coverage.sampleRoot, samplePath [97], samplePath [108]] := by decide +kernel
  rw [hdirectories] at hunited
  have halias : linkedHistory.fs.Aliases (samplePath [97]) (samplePath [108]) := by decide +kernel
  refine ⟨rfl, ⟨?_, ?_, halias⟩, ?_⟩
  · rw [hdirectories]
    decide
  · rw [hdirectories]
    decide
  · exact (List.pairwise_cons.mp (List.pairwise_cons.mp hunited).2).1 _ List.mem_cons_self halias

/-- Each change below the root is told and handled, and yet two registered paths come to lead to one
place: in the first run because one is registered when the other was registered by another walk, in
the second without any walk. -/
theorem not_apart :
    ((Alteration.appears [[108]]).Makes [[119]] nestTree linkedTree ∧
      (Alteration.appears [[108]]).Tells Coverage.sampleRoot
        ((begun nestTree).intake following {} Coverage.sampleRoot).coverage
        [sampleSignal (.create .file) [108]] ∧
      ¬linkedHistory.IsApart following {} Coverage.sampleRoot) ∧
    (Alteration.vanishes [[104]]).Makes [[119]] nearTree brokenTree ∧
      (Alteration.vanishes [[104]]).Tells Coverage.sampleRoot
        ((begun nearTree).intake following {} Coverage.sampleRoot).coverage
        [sampleSignal (.remove .file) [104]] ∧
      (Alteration.appears [[104]]).Makes [[119]] brokenTree farTree ∧
      (Alteration.appears [[104]]).Tells Coverage.sampleRoot
        (brokenHistory.intake following {} Coverage.sampleRoot).coverage
        [sampleSignal (.create .file) [104]] ∧
      (begun nearTree).directories following {} Coverage.sampleRoot =
        [Coverage.sampleRoot, samplePath [108], samplePath [97]] ∧
      replacedHistory.Together following {} Coverage.sampleRoot (samplePath [108])
        (samplePath [97]) := by
  refine ⟨⟨?_, ?_, ?_⟩, ?_, ?_, ?_, ?_, ?_, ?_⟩
  · exact Alteration.makes_insert (r := [[119]]) (p := []) (by decide) _
  · exact Alteration.tells_appears (by decide) (.create .file)
  · decide
  · exact Alteration.makes_removeTree (r := [[119]]) (by simp) (by decide)
  · exact Alteration.tells_vanishes (by decide +kernel) (.remove .file)
  · exact Alteration.makes_insert (r := [[119]]) (p := []) (by decide) _
  · exact Alteration.tells_appears (by decide +kernel) (.create .file)
  · decide +kernel
  · exact ⟨by decide +kernel, by decide +kernel, by decide +kernel⟩

end History

end WorkspaceWatch
