import WorkspaceWatch.Proofs.Coverage.Invariant

/-!
# The books of a coverage

A coverage is kept twice: here, as the registered directories and a counter of how many were ever
registered, and with the operating system's watcher, as its live watches. The two are changed by
three calls, which may come in any order, find the tree changed in any way, and have any path
refused by the watcher.

`Coverage.stays_in_step` says that the books agree after each of them. What is registered is what is
watched; the counter tells the directories that are registered and those that were forgotten, as far
as a call has told of them; and no call asks for a watch that is set already.
-/

namespace WorkspaceWatch

namespace Coverage

/-- A call by which a coverage is changed. -/
inductive Request where
  | registerRoot (root : Path)
  | registerCreated (dir : Path)
  | unregister (dir : Path)
  deriving DecidableEq, Repr

/-- A request, with the tree and the watcher as they are when it comes. -/
structure Call where
  fs : FileSystem
  policy : Backend.Policy
  request : Request

/-- Serves a call. The number is how many directories it says to have forgotten. -/
def serve (scope : Scope) (c : Coverage) (call : Call) : Coverage × Nat :=
  match call.request with
  | .registerRoot root => ((c.registerRoot call.fs scope call.policy root).1, 0)
  | .registerCreated dir => ((c.registerCreated call.fs scope call.policy dir).1, 0)
  | .unregister dir => c.unregister dir

/-- Serves calls in order. The number is how many directories they say to have forgotten, in all. -/
def serveAll (scope : Scope) (c : Coverage) : List Call → Coverage × Nat
  | [] => (c, 0)
  | call :: calls =>
    let (c, forgotten) := c.serve scope call
    let (c, forgotten') := serveAll scope c calls
    (c, forgotten + forgotten')

/-- The books agree, when the counter began at `count` and so many directories were said to be
forgotten since. -/
structure InStep (count : UInt64) (forgotten : Nat) (c : Coverage) : Prop where
  /-- What is watched is what is registered. -/
  live : c.backend.live = c.directories
  distinct : c.IsDistinct
  /-- The counter, which wraps around, tells what is registered and what was forgotten. -/
  counted : c.tally.directoriesRegistered = count + UInt64.ofNat (c.directories.length + forgotten)

/-- On the way from `c` to `c'` the watcher was asked only for paths that were not watched. -/
def AsksAfresh (c c' : Coverage) : Prop :=
  ∃ asked, c'.backend.attempts = c.backend.attempts ++ asked ∧
    (∀ p ∈ asked, ∀ d ∈ c.backend.live, ¬d.Same p) ∧ asked.Pairwise fun p q => ¬p.Same q

variable {fs : FileSystem} {scope : Scope} {policy : Backend.Policy} {c c' : Coverage}
  {count : UInt64} {forgotten : Nat} {added asked : List Path}

/-! ### One call -/

/-- To forget a directory the watcher is asked for nothing. -/
theorem attempts_foldl_unwatch (doomed : List Path) (c : Coverage) :
    (doomed.foldl unwatch c).backend.attempts = c.backend.attempts := by
  rw [foldl_unwatch]

theorem Grew.asksAfresh (h : Grew c added asked c') (hlive : c.backend.live = c.directories) :
    AsksAfresh c c' := by
  refine ⟨asked, h.attempts, fun p hp d hd => ?_, h.distinct⟩
  rw [hlive] at hd
  exact not_same_of_mem (h.free p hp) hd

/-- Once the directories that were added are counted, the books agree. -/
theorem InStep.grow (h : InStep count forgotten c) (hgrew : Grew c added asked c')
    (hcount : c'.tally.directoriesRegistered =
      c.tally.directoriesRegistered + UInt64.ofNat added.length) : InStep count forgotten c' where
  live := by rw [hgrew.live, hgrew.directories, h.live]
  distinct := by
    have hadded := hgrew.distinct.sublist hgrew.accepted.sublist
    rw [IsDistinct, hgrew.directories]
    refine List.pairwise_append.mpr ⟨h.distinct, hadded, fun d hd p hp => ?_⟩
    exact not_same_of_mem (hgrew.free p (hgrew.accepted.subset hp)) hd
  counted := by
    rw [hcount, h.counted, hgrew.directories, List.length_append, Nat.add_right_comm,
      UInt64.ofNat_add (c.directories.length + forgotten), UInt64.add_assoc]

/-- If what was added is forgotten again, the books agree as before. -/
theorem InStep.undo (h : InStep count forgotten c) (hgrew : Grew c added asked c')
    (htally : c'.tally = c.tally) : InStep count forgotten (added.foldl unwatch c') := by
  -- What was added is no spelling of anything that was registered, so nothing else is forgotten.
  have hdirectories : (added.foldl unwatch c').directories = c.directories := by
    rw [foldl_unwatch, hgrew.directories]
    exact hgrew.filter_added
  refine ⟨?_, ?_, ?_⟩
  · rw [hdirectories, foldl_unwatch, hgrew.live, h.live]
    exact hgrew.filter_added
  · rw [IsDistinct, hdirectories]
    exact h.distinct
  · rw [hdirectories, foldl_unwatch, htally]
    exact h.counted

theorem InStep.registerRoot (h : InStep count forgotten c) (root : Path) :
    InStep count forgotten (c.registerRoot fs scope policy root).1 ∧
      AsksAfresh c (c.registerRoot fs scope policy root).1 := by
  obtain ⟨⟨asked, hgrew⟩, htally⟩ := grew_walk fs scope policy true c root
  have hasks := hgrew.asksAfresh h.live
  rw [Coverage.registerRoot]
  split
  · next w heq =>
    rw [heq] at hgrew htally hasks
    refine ⟨h.grow { hgrew with } ?_, hasks⟩
    rw [← htally]
    rfl
  · next w refusal heq =>
    rw [heq] at hgrew htally hasks
    refine ⟨h.undo hgrew htally, ?_⟩
    rwa [AsksAfresh, attempts_foldl_unwatch]

theorem InStep.registerCreated (h : InStep count forgotten c) (dir : Path) :
    InStep count forgotten (c.registerCreated fs scope policy dir).1 ∧
      AsksAfresh c (c.registerCreated fs scope policy dir).1 := by
  obtain ⟨⟨asked, hgrew⟩, hcount⟩ := grew_registerCreated fs scope policy c dir
  exact ⟨h.grow hgrew hcount, hgrew.asksAfresh h.live⟩

theorem InStep.unregister (h : InStep count forgotten c) (dir : Path) :
    InStep count (forgotten + (c.unregister dir).2) (c.unregister dir).1 ∧
      AsksAfresh c (c.unregister dir).1 := by
  have hdirectories := directories_unregister c dir
  refine ⟨⟨?_, ?_, ?_⟩, [], ?_, by simp, List.Pairwise.nil⟩
  · rw [Coverage.unregister, foldl_unwatch, h.live]
  · rw [IsDistinct, hdirectories]
    exact h.distinct.filter _
  · have hparts := c.directories.length_eq_length_filter_add fun d => decide (d.Within dir)
    have htally : (c.unregister dir).1.tally = c.tally := by
      rw [Coverage.unregister, foldl_unwatch]
    rw [htally, h.counted, hdirectories, hparts, Coverage.unregister]
    congr 2
    omega
  · rw [Coverage.unregister, attempts_foldl_unwatch, List.append_nil]

/-- **Whatever call is served, the books agree afterwards.** -/
theorem InStep.serve (h : InStep count forgotten c) (call : Call) :
    InStep count (forgotten + (c.serve scope call).2) (c.serve scope call).1 ∧
      AsksAfresh c (c.serve scope call).1 := by
  obtain ⟨fs, policy, request⟩ := call
  cases request with
  | registerRoot root => exact h.registerRoot root
  | registerCreated dir => exact h.registerCreated dir
  | unregister dir => exact h.unregister dir

/-! ### Any number of calls -/

theorem InStep.serveAll (h : InStep count forgotten c) (calls : List Call) :
    InStep count (forgotten + (c.serveAll scope calls).2) (c.serveAll scope calls).1 := by
  induction calls generalizing c forgotten with
  | nil => exact h
  | cons call calls ih =>
    have hserved : InStep count (forgotten + (c.serve scope call).2) (c.serve scope call).1 :=
      (h.serve call).1
    have hrest := ih hserved
    rwa [Nat.add_assoc] at hrest

/-- **The coverage and the watcher stay in step.** After any calls on a coverage that was empty, in
any order, on any trees and with any refusals, what is registered is what is watched, each directory
once, and the counter tells these directories and those that the calls said to have forgotten. And
whatever call comes next, the watcher is asked for no path that is watched by then. -/
theorem stays_in_step (scope : Scope) (tally : Tally) (calls : List Call) :
    InStep tally.directoriesRegistered (serveAll scope { tally } calls).2
        (serveAll scope { tally } calls).1 ∧
      ∀ call, AsksAfresh (serveAll scope { tally } calls).1
        ((serveAll scope { tally } calls).1.serve scope call).1 := by
  have hempty : InStep tally.directoriesRegistered 0 { tally } :=
    ⟨rfl, List.Pairwise.nil, by simp⟩
  have hbooks : InStep tally.directoriesRegistered (0 + (serveAll scope { tally } calls).2)
      (serveAll scope { tally } calls).1 := hempty.serveAll calls
  rw [Nat.zero_add] at hbooks
  exact ⟨hbooks, fun call => (hbooks.serve call).2⟩

end Coverage

end WorkspaceWatch
