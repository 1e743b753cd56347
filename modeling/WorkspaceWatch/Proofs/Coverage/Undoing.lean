import WorkspaceWatch.Proofs.Coverage.Interruption
import WorkspaceWatch.Proofs.Coverage.Rollback

/-!
# Forgetting what has appeared

A walk spells the directories that it comes to by joining names to the path at which it started,
through links too. So all that it adds lies within that path, and nothing else does if nothing did
before. Forgetting the path then takes away exactly what was added, however far the walk has come,
and both books are as they were (`Coverage.unregister_undoes`).

What does not lie within the forgotten path is never touched, however much its spelling may have in
common with it: `/w/d2` does not lie within `/w/d`.
-/

namespace WorkspaceWatch

namespace Coverage

variable {fs : FileSystem} {scope : Scope} {policy : Backend.Policy} {strict : Bool}
  {c c' : Coverage} {d p q : Path} {added asked : List Path}

/-! ### What a walk adds lies within its start -/

/-- What a directory shows lies within it. -/
theorem Shows.within_dir (h : Shows fs scope p q) : q.Within p := by
  obtain ⟨v, n, -, -, hn, rfl, -⟩ := h.exists_child
  exact p.within_child hn

theorem within_of_mem_added (hp : p ∈ (walk fs scope policy strict c d).1.added) : p.Within d := by
  have hwithin : ∀ p ∈ (walk fs scope policy strict c d).1.added, p.Within d := by
    -- Every directory to which the walk turns lies within the start, also one that is refused.
    refine walk_keeps (Q := fun p => p.Within d) (P := fun w => ∀ p ∈ w.added, p.Within d)
      (fun hp hleads => hleads.1.within_dir.trans hp) id (fun hdir _ _ hw => ?_) (fun _ _ hw => hw)
      id (fun _ hw => hw) d.within_refl (by simp)
    intro p hp
    rcases List.mem_append.mp hp with hp | hp
    · exact hw p hp
    · rw [List.mem_singleton.mp hp]
      exact hdir
  exact hwithin p hp

/-! ### What is forgotten -/

/-- If of all that is registered exactly what was added lies within a path, then this is what is
forgotten with it. -/
theorem Grew.unregister_eq (h : Grew c added asked c') (hadded : ∀ p ∈ added, p.Within d)
    (hfree : ∀ p ∈ c.directories, ¬p.Within d) :
    c'.unregister d = (added.foldl unwatch c', added.length) := by
  have hbefore : c.directories.filter (fun p => decide (p.Within d)) = [] :=
    List.filter_eq_nil_iff.mpr fun p hp => by simpa using hfree p hp
  have hafter : added.filter (fun p => decide (p.Within d)) = added :=
    List.filter_eq_self.mpr fun p hp => by simpa using hadded p hp
  have hdoomed : c'.directories.filter (fun p => decide (p.Within d)) = added := by
    rw [h.directories, List.filter_append, hbefore, hafter, List.nil_append]
  rw [unregister, hdoomed]

/-- Forgetting some paths changes nothing for a path that is no spelling of one of them. -/
theorem any_filter_forgotten {paths forgotten : List Path} (h : ∀ q ∈ forgotten, ¬q.Same p) :
    (paths.filter fun x => !forgotten.any (x.Same ·)).any (fun x => x.Same p) =
      paths.any fun x => x.Same p := by
  have hkept : ∀ x : Path, x.Same p → (forgotten.any fun q => x.Same q) = false := by
    intro x hx
    rw [List.any_eq_false]
    intro q hq hsame
    have hxq : x.Same q := by simpa using hsame
    exact h q hq (hxq.symm.trans hx)
  rw [Bool.eq_iff_iff, List.any_eq_true, List.any_eq_true]
  constructor
  · rintro ⟨x, hx, hsame⟩
    exact ⟨x, (List.mem_filter.mp hx).1, hsame⟩
  · rintro ⟨x, hx, hsame⟩
    have hforgotten := hkept x (by simpa using hsame)
    exact ⟨x, List.mem_filter.mpr ⟨hx, by rw [hforgotten, Bool.not_false]⟩, hsame⟩

/-- Whatever does not lie within the forgotten path is registered and watched as before. -/
theorem unregister_outside (c : Coverage) (hp : ¬p.Within d) :
    (c.unregister d).1.isRegistered p = c.isRegistered p ∧
      (c.unregister d).1.isWatched p = c.isWatched p := by
  have hdoomed : ∀ q ∈ c.directories.filter (fun q => decide (q.Within d)), ¬q.Same p := by
    intro q hq hsame
    have hwithin : q.Within d := by simpa using (List.mem_filter.mp hq).2
    exact hp (hsame.symm.within.trans hwithin)
  rw [unregister, foldl_unwatch]
  exact ⟨any_filter_forgotten hdoomed, any_filter_forgotten hdoomed⟩

/-- **Forgetting undoes registering.** Let what is registered be what is watched, and let nothing of
it lie within a path `d`. Then, on any tree and however the watcher refuses directories, registering
what has appeared at `d` adds directories within `d` to both books, no path twice, and forgetting
`d` leaves both books as they were before. The number that it gives is that of the directories that
were added, and so many were counted. Besides, whatever is registered: to forget `d` changes nothing
for paths that do not lie within it by whole components. -/
theorem unregister_undoes (fs : FileSystem) (scope : Scope) (policy : Backend.Policy) (c : Coverage)
    (d : Path) (hbooks : ∀ p, c.isWatched p = c.isRegistered p)
    (hfree : ∀ p ∈ c.directories, ¬p.Within d) :
    (∃ added : List Path,
      (c.registerCreated fs scope policy d).1.directories = c.directories ++ added ∧
      (c.registerCreated fs scope policy d).1.backend.live = c.backend.live ++ added ∧
      (c.registerCreated fs scope policy d).1.tally.directoriesRegistered =
        c.tally.directoriesRegistered + UInt64.ofNat added.length ∧
      (∀ p ∈ added, p.Within d) ∧ (added.Pairwise fun p q => ¬p.Same q) ∧
      ((c.registerCreated fs scope policy d).1.unregister d).2 = added.length ∧
      ((c.registerCreated fs scope policy d).1.unregister d).1.directories = c.directories ∧
      ((c.registerCreated fs scope policy d).1.unregister d).1.backend.live = c.backend.live) ∧
    ∀ (c' : Coverage) (p : Path), ¬p.Within d →
      (c'.unregister d).1.isRegistered p = c'.isRegistered p ∧
        (c'.unregister d).1.isWatched p = c'.isWatched p := by
  obtain ⟨⟨asked, hgrew⟩, hcounted⟩ := grew_registerCreated fs scope policy c d
  have hadded : ∀ p ∈ (walk fs scope policy false c d).1.added, p.Within d := fun p hp =>
    within_of_mem_added hp
  have hdistinct := hgrew.distinct.sublist hgrew.accepted.sublist
  obtain ⟨hdirectories, hlive⟩ := hgrew.restored hbooks
  have hundone := hgrew.unregister_eq hadded hfree
  refine ⟨⟨_, hgrew.directories, hgrew.live, hcounted, hadded, hdistinct, ?_, ?_, ?_⟩,
    fun c' p hp => c'.unregister_outside hp⟩
  · rw [hundone]
  · rw [hundone, hdirectories]
  · rw [hundone, hlive]

/-! ### A neighbour of almost the same name

In `/w` there are `d` and `d2`. In `d` there are the directories `a` and `b` of `twinTree` and a
link `l` to `d2`. -/

/-- The tree with `/w/d2` and a link to it in `/w/d`. -/
def neighbourTree : FileSystem :=
  (twinTree.insert [[119]] [100, 50] (.directory {})).insert [[100], [119]] [108]
    (.link [dot, dot, slash, 100, 50])

/-- The directories `/w` and `/w/d2` are registered, the latter in another spelling. -/
def neighbourCoverage : Coverage :=
  let paths := [sampleRoot, ⟨sampleRoot.bytes ++ [slash, slash, 100, 50]⟩]
  { directories := paths, backend := { live := paths } }

/-- The watcher that refuses `/w/d/a` and nothing else. -/
def neighbourPolicy : Backend.Policy := fun _ p =>
  if p.Same (twinPath [[97]]) then some "watch limit reached" else none

/-- The directory `/w/d`, spelled with a slash at its end. -/
def slashedPath : Path := ⟨(twinPath []).bytes ++ [slash]⟩

/-- The coverage after `/w/d` has appeared, where links are followed. -/
def neighbourAfter : Coverage :=
  (neighbourCoverage.registerCreated neighbourTree { followLinks := true } neighbourPolicy
    slashedPath).1

/-- There are registered `/w/d`, the link in it and `/w/d/b`. All three are forgotten again, and
`/w/d2` is not. -/
theorem unregister_undoes_neighbour :
    neighbourAfter.directories = neighbourCoverage.directories ++
        [slashedPath, slashedPath.under [[108]], slashedPath.under [[98]]] ∧
      (neighbourAfter.unregister slashedPath).2 = 3 ∧
      (neighbourAfter.unregister slashedPath).1.directories = neighbourCoverage.directories ∧
      (neighbourAfter.unregister slashedPath).1.backend.live = neighbourCoverage.backend.live := by
  have hfree : ∀ p ∈ neighbourCoverage.directories, ¬p.Within slashedPath := by decide
  obtain ⟨⟨added, hdirectories, -, -, -, -, hnumber, hbefore, hlive⟩, -⟩ :=
    unregister_undoes neighbourTree { followLinks := true } neighbourPolicy neighbourCoverage
      slashedPath (fun _ => rfl) hfree
  rw [← neighbourAfter] at hdirectories hnumber hbefore hlive
  have hall : neighbourAfter.directories = neighbourCoverage.directories ++
      [slashedPath, slashedPath.under [[108]], slashedPath.under [[98]]] := by
    decide +kernel
  have hadded : neighbourCoverage.directories ++ added = neighbourCoverage.directories ++
      [slashedPath, slashedPath.under [[108]], slashedPath.under [[98]]] := by
    rw [← hdirectories, hall]
  rw [List.append_cancel_left hadded] at hnumber
  exact ⟨hall, hnumber, hbefore, hlive⟩

end Coverage

end WorkspaceWatch
