import WorkspaceWatch.FileSystem.Edit
import WorkspaceWatch.Proofs.Coverage.Growth

/-!
# A root is registered as a whole or not at all

The walk through the tree at a root adds directories behind those that were registered before, on
both books: here and with the watcher. If it is stopped, what it has added is forgotten one
directory after the other. It does not matter at what it was stopped: a directory that cannot be
read, or not to its end, has been registered by then, and adds nothing more.

None of the directories that were added is a spelling of a directory that was registered before, nor
of one that was watched, provided that the two books agreed. So whatever was there before is there
at every moment (`Coverage.Keeps`), and in the end nothing else is (`Coverage.all_or_nothing`).
-/

namespace WorkspaceWatch

namespace Coverage

variable {fs : FileSystem} {scope : Scope} {policy : Backend.Policy} {c c' : Coverage}
  {added asked forgotten : List Path}

/-- The path is watched. -/
def isWatched (c : Coverage) (p : Path) : Bool := c.backend.live.any fun d => d.Same p

/-- Nothing of the coverage `c` is missing in `c'`, on either book. -/
structure Keeps (c c' : Coverage) : Prop where
  directories : c.directories <+: c'.directories
  live : c.backend.live <+: c'.backend.live

/-- What was added is no spelling of what was watched. -/
private theorem Grew.unwatched (h : Grew c added asked c')
    (hbooks : ∀ p, c.isWatched p = c.isRegistered p) :
    ∀ p ∈ added, ∀ d ∈ c.backend.live, ¬d.Same p := by
  intro p hp d hd hsame
  have hwatched : c.isWatched p = true := List.any_eq_true.mpr ⟨d, hd, by simpa using hsame⟩
  rw [hbooks, h.free p (h.accepted.subset hp)] at hwatched
  cases hwatched

/-- Whatever part of what was added is forgotten, nothing of what was there before is. -/
theorem Grew.keeps (h : Grew c added asked c')
    (hbooks : ∀ p, c.isWatched p = c.isRegistered p) (hforgotten : forgotten ⊆ added) :
    c.Keeps (forgotten.foldl unwatch c') := by
  have hregistered : ∀ p ∈ forgotten, ∀ d ∈ c.directories, ¬d.Same p := fun p hp _ hd =>
    not_same_of_mem (h.free p (h.accepted.subset (hforgotten hp))) hd
  have hwatched : ∀ p ∈ forgotten, ∀ d ∈ c.backend.live, ¬d.Same p := fun p hp =>
    h.unwatched hbooks p (hforgotten hp)
  rw [foldl_unwatch]
  constructor
  · rw [h.directories, filter_forgotten hregistered]
    exact List.prefix_append _ _
  · rw [h.live, filter_forgotten hwatched]
    exact List.prefix_append _ _

/-- Once all that was added is forgotten, both books are as they were. -/
theorem Grew.restored (h : Grew c added asked c')
    (hbooks : ∀ p, c.isWatched p = c.isRegistered p) :
    (added.foldl unwatch c').directories = c.directories ∧
      (added.foldl unwatch c').backend.live = c.backend.live := by
  rw [foldl_unwatch, h.directories, h.live]
  refine ⟨h.filter_added, ?_⟩
  rw [filter_forgotten (h.unwatched hbooks), filter_self, List.append_nil]

/-- **All or nothing.** Let what is registered be what is watched. If a root cannot be registered,
then what is registered, what is watched and what was counted is what it was before; if it can, all
that the walk has added is registered and watched. And nothing that was registered or watched before
is missing after the call, nor at any moment while what was added is forgotten again. -/
theorem all_or_nothing (fs : FileSystem) (scope : Scope) (policy : Backend.Policy) (c : Coverage)
    (root : Path) (hbooks : ∀ p, c.isWatched p = c.isRegistered p) :
    (∀ f, (c.registerRoot fs scope policy root).2 = .error f →
      (c.registerRoot fs scope policy root).1.directories = c.directories ∧
      (c.registerRoot fs scope policy root).1.backend.live = c.backend.live ∧
      (c.registerRoot fs scope policy root).1.tally = c.tally) ∧
    (∀ n, (c.registerRoot fs scope policy root).2 = .ok n →
      ∃ added, added.length = n ∧
        (c.registerRoot fs scope policy root).1.directories = c.directories ++ added ∧
        (c.registerRoot fs scope policy root).1.backend.live = c.backend.live ++ added) ∧
    c.Keeps (c.registerRoot fs scope policy root).1 ∧
    ∀ forgotten, forgotten <+: (walk fs scope policy true c root).1.added →
      c.Keeps (forgotten.foldl unwatch (walk fs scope policy true c root).1.coverage) := by
  obtain ⟨⟨asked, hgrew⟩, htally⟩ := grew_walk fs scope policy true c root
  rw [registerRoot]
  generalize walk fs scope policy true c root = after at hgrew htally ⊢
  obtain ⟨w, _ | refusal⟩ := after <;> dsimp only at hgrew htally ⊢
  · refine ⟨?_, ?_, ?_, fun forgotten hprefix => hgrew.keeps hbooks hprefix.subset⟩
    · rintro f ⟨⟩
    · rintro n ⟨⟩
      exact ⟨w.added, rfl, hgrew.directories, hgrew.live⟩
    · have hkeeps : c.Keeps w.coverage := hgrew.keeps hbooks (List.nil_subset _)
      exact ⟨hkeeps.directories, hkeeps.live⟩
  · obtain ⟨hdirectories, hlive⟩ := hgrew.restored hbooks
    refine ⟨fun f _ => ⟨hdirectories, hlive, ?_⟩, ?_, hgrew.keeps hbooks (List.Subset.refl _),
      fun forgotten hprefix => hgrew.keeps hbooks hprefix.subset⟩
    · rw [foldl_unwatch]
      exact htally
    · rintro n ⟨⟩

/-! ### A refusal

In the root there are `b` and `a`, and in `a` there is `x`. The directories `/a` and `/a/x` are
registered when `/` is to be, and `/b` is refused. -/

/-- The directories `/b`, `/a` and `/a/x`. -/
def forkedTree : FileSystem :=
  ((FileSystem.empty.insert [] [98] (.directory {})).insert [] [97] (.directory {})).insert
    [[97]] [120] (.directory {})

/-- The watcher that refuses `/b` and nothing else. -/
def selectivePolicy : Backend.Policy := fun _ p =>
  if p.Same ⟨[slash, 98]⟩ then some "no" else none

/-- The coverage of the tree at `/a`. -/
def partCoverage : Coverage :=
  (registerRoot forkedTree {} Backend.acceptAll {} ⟨[slash, 97]⟩).1

/-- The walk from `/` has added `/` and passed through `/a` and `/a/x` by the time it is stopped.
Afterwards these two are registered and watched, and nothing else. -/
theorem all_or_nothing_refused :
    (walk forkedTree {} selectivePolicy true partCoverage ⟨[slash]⟩).1.added = [⟨[slash]⟩] ∧
      (partCoverage.registerRoot forkedTree {} selectivePolicy ⟨[slash]⟩).1.directories =
        partCoverage.directories ∧
      (partCoverage.registerRoot forkedTree {} selectivePolicy ⟨[slash]⟩).1.backend.live =
        [⟨[slash, 97]⟩, ⟨[slash, 97, slash, 120]⟩] := by
  have hrefused := (all_or_nothing forkedTree {} selectivePolicy partCoverage ⟨[slash]⟩
    fun _ => rfl).1 (.watchSetup ⟨[slash, 98]⟩ "no") (by decide)
  exact ⟨by decide, hrefused.1, hrefused.2.1.trans (by decide)⟩

end Coverage

end WorkspaceWatch
