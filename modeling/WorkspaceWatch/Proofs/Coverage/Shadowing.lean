import WorkspaceWatch.Proofs.Coverage.Following

/-!
# Following links and keeping them

One would expect that following links only adds directories to those that are registered without.
But a walk that follows links may come to a directory through a link before it comes to it on the
direct way, and then the direct way is passed over, with everything below it. Such a directory is
**shadowed** (`Coverage.Shadowed`).

`Coverage.registerRoot_shadows` says that nothing else can happen. The shadowed directory is
registered under its other path. What is below it is registered too, as long as the name of an entry
decides whether it is ignored; if its whole path does, then it may be registered under no path at
all (`Coverage.following_loses`).
-/

namespace WorkspaceWatch

namespace Coverage

variable {fs : FileSystem} {scope : Scope} {policy : Backend.Policy} {c : Coverage}
  {root d d' : Path} {r : Place}

/-! ### What registering a root leaves -/

/-- A strict walk that is not stopped has read the directory at which it began. -/
theorem Walk.Runs.exists_list_start {start : Path} {after : Walk × Option Refusal}
    (hrun : Runs fs scope policy true [start] { coverage := c } after) (hnone : after.2 = none) :
    ∃ v names, fs.list start = .ok (v, names) := by
  cases hrun with
  | stopped => cases hnone
  | passed turns =>
    cases turns with
    | known hseen => simp [Walk.hasVisited] at hseen
    | unreadable _ _ _ hlenient => cases hlenient
  | entered turns =>
    cases turns with
    | entered _ _ hlist => exact ⟨_, _, hlist⟩

/-- If a root cannot be registered, nothing is registered that was not before. -/
theorem directories_registerRoot_of_some {refusal : Refusal}
    (h : (walk fs scope policy true c root).2 = some refusal) :
    (c.registerRoot fs scope policy root).1.directories = c.directories := by
  obtain ⟨⟨asked, hgrew⟩, -⟩ := grew_walk fs scope policy true c root
  rw [registerRoot, ← Prod.eta (walk fs scope policy true c root), h]
  dsimp only
  rw [foldl_unwatch, hgrew.directories]
  exact hgrew.filter_added

theorem directories_registerRoot_of_none
    (h : (walk fs scope policy true c root).2 = none) :
    (c.registerRoot fs scope policy root).1.directories =
      (walk fs scope policy true c root).1.coverage.directories := by
  rw [registerRoot_of_none h]
  rfl

/-- Registering a root forgets nothing that was registered before. -/
theorem subset_registerRoot (fs : FileSystem) (scope : Scope) (policy : Backend.Policy)
    (c : Coverage) (root : Path) :
    c.directories ⊆ (c.registerRoot fs scope policy root).1.directories := by
  obtain ⟨⟨asked, hgrew⟩, -⟩ := grew_walk fs scope policy true c root
  rcases directories_registerRoot fs scope policy c root with hall | hnothing
  · rw [hall, hgrew.directories]
    exact List.subset_append_left _ _
  · rw [hnothing]
    exact List.Subset.refl _

/-! ### Two walks from one root -/

section Rooted

variable (hplace : fs.place root = .ok r) (hdir : fs.HasDirectory r)
include hplace hdir

/-- Where links are kept, a walk does not come to one place under two paths. -/
theorem Reached.eq_of_aliases (hlinks : scope.followLinks = false) (h : Reached fs scope root d)
    (h' : Reached fs scope root d') (halias : fs.Aliases d d') : d = d' := by
  obtain ⟨p, hp, hopen, hfits, rfl⟩ := attainable_of_reached hplace hdir hlinks h
  obtain ⟨p', hp', hopen', hfits', rfl⟩ := attainable_of_reached hplace hdir hlinks h'
  obtain ⟨v, hv, hv'⟩ := halias
  rw [place_under hplace hdir hp hopen hfits, ← hv',
    place_under hplace hdir hp' hopen' hfits'] at hv
  rw [List.append_cancel_right (Except.ok.inj hv)]

/-- What a walk comes to that keeps links is done once they are followed, unless this directory, or
one above it, is done under another path. -/
theorem Explored.mem_or_aliased {done : List Path} {w : Walk}
    (h : Explored fs scope.following c root done [] w) (hroot : root ∈ done)
    (hd : Reached fs scope.keeping root d) : d ∈ done ∨
      ∃ a, Reached fs scope.keeping root a ∧ d.Within a ∧ a ∉ done ∧
        ∃ a' ∈ done, fs.Aliases a a' := by
  induction hd with
  | start => exact .inl hroot
  | @next dir p hreached hleads ih =>
    rcases ih with hdone | ⟨a, ha, hwithin, hother⟩
    · have hp : Reached fs scope.keeping root p := hreached.next hleads
      obtain ⟨q, hq, hopen, hfits, rfl⟩ := attainable_of_reached hplace hdir rfl hp
      obtain ⟨access, hlocate⟩ := locate_under hplace hdir hq hopen hfits
      have henters : scope.following.enters fs (root.under q) = true :=
        (Scope.enters_iff_of_following rfl).mpr ⟨_, access, hlocate⟩
      obtain ⟨e, he, htaken⟩ := h.followed dir hdone _ ⟨hleads.1, henters⟩
      have hmet : Reached fs scope.following root e := h.reached e he
      rw [List.append_nil] at he
      obtain ⟨u, _, hlocate'⟩ := hmet.exists_locate hplace hdir rfl
      by_cases hmem : root.under q ∈ done
      · exact .inl hmem
      refine .inr ⟨_, hp, Path.within_refl _, hmem, e, he, ?_⟩
      rcases htaken.place_eq hlocate' hlocate with rfl | hsame
      · exact ⟨_, by rw [FileSystem.place, hlocate], by rw [FileSystem.place, hlocate']⟩
      · exact absurd (hmet.eq_of_same hp hsame ▸ he) hmem
    · obtain ⟨v, n, -, -, hn, rfl, -⟩ := hleads.1.exists_child
      exact .inr ⟨a, ha, (dir.within_child hn).trans hwithin, hother⟩

/-- Where names are judged, what a walk comes to that keeps links is connected to the root once they
are followed. -/
theorem Reached.connected_of_keeping (hnames : scope.JudgesNames root)
    (hd : Reached fs scope.keeping root d) : ∃ v, fs.place d = .ok v ∧
      Connected fs scope.following root r v := by
  obtain ⟨p, hp, hopen, hfits, rfl⟩ := attainable_of_reached hplace hdir rfl hd
  refine ⟨p ++ r, place_under hplace hdir hp hopen hfits, ?_⟩
  clear hfits hd
  induction p with
  | nil => exact .root
  | cons n p ih =>
    obtain ⟨_, haccess⟩ := FileSystem.hasDirectory_iff.mp hp.2.1
    have hn := hp.isProper n List.mem_cons_self
    have hwithin : (root.under p).Within root :=
      (Path.within_under_iff root hp.1.isProper fun _ hn => absurd hn List.not_mem_nil).mpr
        List.nil_suffix
    refine (ih hp.1 hopen.1).next (fs.mem_names_iff.mpr ⟨_, haccess⟩) ?_
      (.enters hopen.2 hp.2.1 (.arrived hp.2.1))
    exact (hnames _ n hwithin hn).symm.trans hp.2.2

end Rooted

/-- The directory at the path `a` is registered where links are kept, but the walk `w` from the same
root that follows them has visited it under another path. Unless it was registered before, neither
path was registered by the other walk. -/
structure Shadowed (fs : FileSystem) (scope : Scope) (root : Path) (c keeping following : Coverage)
    (w : Walk) (a : Path) : Prop where
  /-- It is a directory strictly below the root. -/
  below : a.Within root ∧ ¬a.Same root
  registered : keeping.isRegistered a = true
  missed : following.isRegistered a = true → c.isRegistered a = true
  instead : ∃ a', Reached fs scope.following root a' ∧ Walk.landmark fs a' ∈ w.visited ∧
    following.isRegistered a' = true ∧ fs.Aliases a a' ∧
      (keeping.isRegistered a' = true → c.isRegistered a' = true)

/-- What the walk is done with that keeps links is registered by the one that follows them, or it is
shadowed, if not by itself then by a directory above it. -/
theorem Explored.registered_or_shadowed {keeping following : Coverage} {done done' : List Path}
    {w w' : Walk} (hplace : fs.place root = .ok r) (hdir : fs.HasDirectory r)
    (h : Explored fs scope.keeping c root done [] w)
    (h' : Explored fs scope.following c root done' [] w') (hroot : root ∈ done')
    (hkeeping : keeping.directories = w.coverage.directories)
    (hfollowing : following.directories = w'.coverage.directories) (hd : d ∈ done) :
    following.isRegistered d = true ∨
      ∃ a, d.Within a ∧ Shadowed fs scope root c keeping following w' a := by
  have hdone : ∀ d, d ∈ done ↔ Reached fs scope.keeping root d := fun d => h.mem_done_iff rfl
  have hregistered : ∀ p, keeping.isRegistered p = w.coverage.isRegistered p := fun p => by
    rw [isRegistered, hkeeping, isRegistered]
  have hregistered' : ∀ p, following.isRegistered p = w'.coverage.isRegistered p := fun p => by
    rw [isRegistered, hfollowing, isRegistered]
  rcases h'.mem_or_aliased hplace hdir hroot ((hdone d).mp hd) with hd' | haliased
  · exact .inl ((hregistered' d).trans (h'.registered d hd'))
  obtain ⟨a, ha, hwithin, hmissed, a', ha', halias⟩ := haliased
  have hreached' : Reached fs scope.following root a' :=
    h'.reached a' (List.mem_append_left _ ha')
  -- Were both paths of one place done without links, they would be the same path.
  have hother : a' ∉ done := fun hmem => hmissed <| by
    rwa [ha.eq_of_aliases hplace hdir rfl ((hdone a').mp hmem) halias]
  have hbelow : ¬a.Same root := fun hsame => hmissed <| by
    have hstart : Reached fs scope.keeping root root := .start
    rwa [ha.eq_of_same hstart hsame]
  refine .inr ⟨a, hwithin, ⟨ha.within, hbelow⟩, ?_, fun hreg => ?_, a', hreached', ?_, ?_, halias,
    fun hreg => ?_⟩
  · exact (hregistered a).trans (h.registered a ((hdone a).mpr ha))
  · exact (h'.registered_or_mem ha ((hregistered' a).symm.trans hreg)).resolve_right hmissed
  · exact h'.noted rfl a' ha'
  · exact (hregistered' a').trans (h'.registered a' ha')
  · exact (h.registered_or_mem hreached' ((hregistered a').symm.trans hreg)).resolve_right hother

/-- Two paths of one directory. -/
def Alike (fs : FileSystem) (d p : Path) : Prop :=
  d = p ∨ ∃ v, fs.place d = .ok v ∧ fs.place p = .ok v

/-- **What following links takes away.** A directory that is registered where links are kept is
registered where they are followed, unless it, or a directory above it strictly below the root, was
visited under another path before. If names decide what is ignored and the operating system takes
every path that is found, then the directory itself is registered at least under another path. -/
theorem registerRoot_shadows (fs : FileSystem) (scope : Scope) (root : Path) (c : Coverage)
    (hread : ∀ v, fs.HasDirectory v → fs.isReadable v = true) :
    let keeping := (c.registerRoot fs scope.keeping Backend.acceptAll root).1
    let following := (c.registerRoot fs scope.following Backend.acceptAll root).1
    let w := (walk fs scope.following Backend.acceptAll true c root).1
    (∀ d ∈ keeping.directories, following.isRegistered d = true ∨
      ∃ a, d.Within a ∧ Shadowed fs scope root c keeping following w a) ∧
    (scope.JudgesNames root → (∀ p ∈ w.found, fs.Takes p) →
      ∀ d ∈ keeping.directories, ∃ d', following.isRegistered d' = true ∧ Alike fs d' d) := by
  intro keeping following w
  have hbefore : ∀ d ∈ c.directories, following.isRegistered d = true := fun d hd =>
    isRegistered_iff.mpr ⟨d, subset_registerRoot fs scope.following _ c root hd, d.same_refl⟩
  have hruns := runs_walk fs scope.keeping Backend.acceptAll true c root
  have hruns' := runs_walk fs scope.following Backend.acceptAll true c root
  cases hstopped : (walk fs scope.keeping Backend.acceptAll true c root).2 with
  | some refusal =>
    have hkeeping : keeping.directories = c.directories := directories_registerRoot_of_some hstopped
    rw [hkeeping]
    exact ⟨fun d hd => .inl (hbefore d hd), fun _ _ d hd => ⟨d, hbefore d hd, .inl rfl⟩⟩
  | none =>
    obtain ⟨r, names, hroot⟩ := hruns.exists_list_start hstopped
    have hplace := FileSystem.place_of_list hroot
    have hdir := FileSystem.hasDirectory_of_list hroot
    obtain ⟨done, h⟩ := hruns.explored (.initial fs scope.keeping c root) hstopped
    have hkeeping : keeping.directories = _ := directories_registerRoot_of_none hstopped
    -- The walk that follows links can read all that it comes to.
    have hok : ∀ d, Reached fs scope.following root d → (fs.list d).isOk = true := fun d hd =>
      hd.isOk_list hplace hdir rfl hread
    obtain ⟨w', -, hwalk, -⟩ := explored_walk c root fun (_ : true = true) => hok
    have hnone : (walk fs scope.following Backend.acceptAll true c root).2 = none := by rw [hwalk]
    obtain ⟨done', hroot', h'⟩ := hruns'.explored_start hnone
    have hfollowing : following.directories = _ := directories_registerRoot_of_none hnone
    rw [hkeeping]
    refine ⟨fun d hd => ?_, fun hnames htakes d hd => ?_⟩
    · rcases h.origin d hd with hd | hd
      · exact .inl (hbefore d hd)
      · exact h.registered_or_shadowed hplace hdir h' hroot' hkeeping hfollowing hd
    · rcases h.origin d hd with hd | hd
      · exact ⟨d, hbefore d hd, .inl rfl⟩
      have hreached := (h.mem_done_iff rfl).mp hd
      obtain ⟨v, hv, hconnected⟩ := hreached.connected_of_keeping hplace hdir hnames
      obtain ⟨d', hd', hv'⟩ := h'.exists_place hplace hdir rfl hnames
        (fun d hd => hok d (h'.reached d (List.mem_append_left _ hd))) htakes hconnected
      refine ⟨d', ?_, .inr ⟨v, hv', hv⟩⟩
      rw [isRegistered, hfollowing]
      exact h'.registered d' hd'

/-- Where links are followed from `/w`, `/w/a` is shadowed: its directory is registered, but under
another path. -/
theorem registerRoot_shadows_winding :
    let keeping := (registerRoot windingTree withoutT.keeping Backend.acceptAll {} sampleRoot).1
    let following := (registerRoot windingTree withoutT.following Backend.acceptAll {} sampleRoot).1
    let w := (walk windingTree withoutT.following Backend.acceptAll true {} sampleRoot).1
    (∃ a, (sampleRoot.under [[97]]).Within a ∧
      Shadowed windingTree withoutT sampleRoot {} keeping following w a) ∧
      ∃ d', following.isRegistered d' = true ∧ Alike windingTree d' (sampleRoot.under [[97]]) := by
  have hshadows :=
    registerRoot_shadows windingTree withoutT sampleRoot {} fun _ => isReadable_winding
  have hkept : sampleRoot.under [[97]] ∈ (registerRoot windingTree withoutT.keeping
      Backend.acceptAll {} sampleRoot).1.directories := by decide +kernel
  exact ⟨(hshadows.1 _ hkept).resolve_left (by decide +kernel),
    hshadows.2 judgesNames_withoutT takes_winding _ hkept⟩

/-- In `/w` there are two directories `a` and `b`. Each holds a directory `x` and a link to the
other one. -/
def crossedTree : FileSystem :=
  let a := ((FileSystem.empty.insert [] [119] (.directory {})).insert [[119]] [97]
    (.directory {})).insert [[97], [119]] [120] (.directory {})
  let b := (a.insert [[119]] [98] (.directory {})).insert [[98], [119]] [120] (.directory {})
  (b.insert [[97], [119]] [108] (.link [dot, dot, slash, 98])).insert [[98], [119]] [108]
    (.link [dot, dot, slash, 97])

/-- The paths `/w/a/l/x` and `/w/b/l/x` are ignored. -/
def withoutDetours : Scope :=
  { ignore := ⟨["/w/a/l/x".toList.map .literal, "/w/b/l/x".toList.map .literal]⟩ }

/-- Where links are followed, neither `/w/a` nor, under any path, the directory in it is registered,
although both are where links are kept. -/
theorem following_loses :
    let keeping := (registerRoot crossedTree withoutDetours.keeping Backend.acceptAll {} sampleRoot)
    let following :=
      (registerRoot crossedTree withoutDetours.following Backend.acceptAll {} sampleRoot)
    keeping.2 = .ok 5 ∧ following.2 = .ok 4 ∧
      sampleRoot.under [[97]] ∈ keeping.1.directories ∧
      following.1.isRegistered (sampleRoot.under [[97]]) = false ∧
      sampleRoot.under [[120], [97]] ∈ keeping.1.directories ∧
      ∀ d ∈ following.1.directories, ¬crossedTree.Aliases (sampleRoot.under [[120], [97]]) d := by
  decide +kernel

end Coverage

end WorkspaceWatch
