import WorkspaceWatch.FileSystem.Edit
import WorkspaceWatch.Watch.Signal
import WorkspaceWatch.Proofs.Coverage.Tree

/-!
# Changes of a tree

An **alteration** is one change below a root: something appears at a free place, what is at a place
vanishes with everything in it, or it moves to a free place. `Alteration.Makes` says what it does to
a file system; it leaves open in which order directories list their entries afterwards, and how
large a tree it is that appears.

The operating system tells of an alteration by signals about its two sides, the place that is left
and the place that is taken. It tells of a side if the directory around it is registered
(`Alteration.Tells`).
-/

namespace WorkspaceWatch

/-- One change of a tree, at places below its root. -/
inductive Alteration where
  | appears (p : Place)
  | vanishes (p : Place)
  | moves (p q : Place)
  deriving DecidableEq, Repr

namespace Alteration

/-- The place that is left. -/
def left? : Alteration → Option Place
  | appears _ => none
  | vanishes p => some p
  | moves p _ => some p

/-- The place that is taken. -/
def taken? : Alteration → Option Place
  | appears p => some p
  | vanishes _ => none
  | moves _ q => some q

/-- The place is the one that is left or lies below it. -/
def InLeft (a : Alteration) (x : Place) : Prop := ∃ p, a.left? = some p ∧ p <:+ x

/-- The place is the one that is taken or lies below it. -/
def InTaken (a : Alteration) (x : Place) : Prop := ∃ q, a.taken? = some q ∧ q <:+ x

/-- The alteration turns the file system `fs` into `fs'`. The root, at `r`, is not the place that is
left or taken. -/
structure Makes (a : Alteration) (r : Place) (fs fs' : FileSystem) : Prop where
  left : ∀ p, a.left? = some p →
    p ≠ [] ∧ (fs.node? (p ++ r)).isSome = true ∧ fs'.node? (p ++ r) = none
  taken : ∀ q, a.taken? = some q →
    q ≠ [] ∧ fs.node? (q ++ r) = none ∧ (fs'.node? (q ++ r)).isSome = true
  moved : ∀ p q, a = .moves p q → ∀ x, fs'.node? (x ++ q ++ r) = fs.node? (x ++ p ++ r)
  /-- Nothing else changes. -/
  others : ∀ x, (∀ p, a.left? = some p → ¬p ++ r <:+ x) →
    (∀ q, a.taken? = some q → ¬q ++ r <:+ x) → fs'.node? x = fs.node? x

/-! ### What stays -/

private theorem not_inLeft_of_cons {a : Alteration} {name : Name} {x : Place}
    (h : ¬a.InLeft (name :: x)) : ¬a.InLeft x := fun ⟨p, hp, hs⟩ =>
  h ⟨p, hp, hs.trans (List.suffix_cons _ _)⟩

private theorem not_inTaken_of_cons {a : Alteration} {name : Name} {x : Place}
    (h : ¬a.InTaken (name :: x)) : ¬a.InTaken x := fun ⟨q, hq, hs⟩ =>
  h ⟨q, hq, hs.trans (List.suffix_cons _ _)⟩

theorem not_suffix_tail {p : Place} (hp : p ≠ []) : ¬p <:+ p.tail := fun hs => by
  have hle := hs.length_le
  have hpos := List.length_pos_iff.mpr hp
  rw [List.length_tail] at hle
  omega

namespace Makes

variable {a : Alteration} {r x p q : Place} {fs fs' : FileSystem} {scope : Scope} {root : Path}
  (h : a.Makes r fs fs')
include h

theorem node?_eq (hleft : ¬a.InLeft x) (htaken : ¬a.InTaken x) :
    fs'.node? (x ++ r) = fs.node? (x ++ r) :=
  h.others _ (fun p hp hs => hleft ⟨p, hp, List.suffix_append_self_iff.mp hs⟩)
    fun q hq hs => htaken ⟨q, hq, List.suffix_append_self_iff.mp hs⟩

theorem node?_of_inLeft (hx : a.InLeft x) : fs'.node? (x ++ r) = none := by
  obtain ⟨p, hp, pre, rfl⟩ := hx
  cases hnode : fs'.node? (pre ++ p ++ r) with
  | none => rfl
  | some node =>
    rw [List.append_assoc] at hnode
    have hsome := fs'.isSome_node?_of_append hnode
    rw [(h.left p hp).2.2] at hsome
    cases hsome

theorem node?_of_inTaken (hx : a.InTaken x) : fs.node? (x ++ r) = none := by
  obtain ⟨q, hq, pre, rfl⟩ := hx
  cases hnode : fs.node? (pre ++ q ++ r) with
  | none => rfl
  | some node =>
    rw [List.append_assoc] at hnode
    have hsome := fs.isSome_node?_of_append hnode
    rw [(h.taken q hq).2.1] at hsome
    cases hsome

theorem isProper_left (hp : a.left? = some p) : p.IsProper := by
  obtain ⟨node, hnode⟩ := Option.isSome_iff_exists.mp (h.left p hp).2.1
  exact Coverage.isProper_of_node?_append hnode

theorem isProper_taken (hq : a.taken? = some q) : q.IsProper := by
  obtain ⟨node, hnode⟩ := Option.isSome_iff_exists.mp (h.taken q hq).2.2
  exact Coverage.isProper_of_node?_append hnode

theorem not_covers_of_inLeft (hx : a.InLeft x) (hne : x ≠ []) :
    ¬Coverage.Covers scope fs' root r x := by
  intro hcovers
  cases x with
  | nil => exact hne rfl
  | cons name x =>
    have hdir := hcovers.2.1
    rw [FileSystem.HasDirectory, h.node?_of_inLeft hx] at hdir
    cases hdir

/-- What is elsewhere is to be covered as before. -/
theorem covers_iff (hleft : ¬a.InLeft x) (htaken : ¬a.InTaken x) :
    Coverage.Covers scope fs' root r x ↔ Coverage.Covers scope fs root r x := by
  induction x with
  | nil => simp
  | cons name x ih =>
    rw [Coverage.covers_cons, Coverage.covers_cons, ih (not_inLeft_of_cons hleft)
      (not_inTaken_of_cons htaken), FileSystem.HasDirectory, FileSystem.HasDirectory,
      h.node?_eq hleft htaken]

/-- What is elsewhere is visible as before. -/
theorem visible_iff (hleft : ¬a.InLeft x) (htaken : ¬a.InTaken x) :
    Coverage.Visible scope fs' root r x ↔ Coverage.Visible scope fs root r x := by
  cases x with
  | nil => exact Iff.rfl
  | cons name x =>
    rw [Coverage.visible_cons, Coverage.visible_cons, h.covers_iff (not_inLeft_of_cons hleft)
      (not_inTaken_of_cons htaken), h.node?_eq hleft htaken]

/-- The directory around the place that is taken is elsewhere. -/
theorem covers_around_taken_iff (hq : a.taken? = some q) :
    Coverage.Covers scope fs' root r q.tail ↔ Coverage.Covers scope fs root r q.tail := by
  obtain ⟨hne, -, hsome⟩ := h.taken q hq
  refine h.covers_iff ?_ ?_
  · rintro ⟨p, hp, hs⟩
    rw [h.node?_of_inLeft ⟨p, hp, hs.trans (List.tail_suffix q)⟩] at hsome
    cases hsome
  · rintro ⟨q', hq', hs⟩
    obtain rfl : q = q' := Option.some.inj (hq.symm.trans hq')
    exact not_suffix_tail hne hs

end Makes

end Alteration

/-! ### Elementary changes -/

section Elementary

variable {fs : FileSystem} {p r : Place} {name : Name}

theorem Alteration.makes_insert (h : fs.IsFree (p ++ r) name) (n : Node) :
    (Alteration.appears (name :: p)).Makes r fs (fs.insert (p ++ r) name n) where
  left := nofun
  taken := by
    rintro q ⟨⟩
    refine ⟨List.cons_ne_nil _ _, h.1, ?_⟩
    rw [FileSystem.node?_insert h, if_pos List.cons_append, Option.isSome_some]
  moved := nofun
  others := by
    intro x _ htaken
    rw [FileSystem.node?_insert h, if_neg]
    rintro rfl
    exact htaken _ rfl List.suffix_rfl

theorem Alteration.makes_removeTree (hp : p ≠ []) (h : (fs.node? (p ++ r)).isSome = true) :
    (Alteration.vanishes p).Makes r fs (fs.removeTree (p ++ r)) where
  left := by
    rintro q ⟨⟩
    refine ⟨hp, h, ?_⟩
    rw [FileSystem.node?_removeTree _ _ _ (by simp [hp]), if_pos List.suffix_rfl]
  taken := nofun
  moved := nofun
  others := by
    intro x hleft _
    by_cases hx : x = []
    · rw [hx, FileSystem.node?_root, FileSystem.node?_root]
    · rw [FileSystem.node?_removeTree _ _ _ hx, if_neg (hleft p rfl)]

theorem Alteration.makes_moveTree {q : Place} (hp : p ≠ [])
    (h : fs.CanMove (p ++ r) (q ++ r) name) :
    (Alteration.moves p (name :: q)).Makes r fs (fs.moveTree (p ++ r) (q ++ r) name) := by
  obtain ⟨hne, hsome, hfree, -⟩ := id h
  -- Nothing was at or below the free place.
  have hvacant : ∀ x, name :: q ++ r <:+ x → fs.node? x = none := by
    rintro x ⟨pre, rfl⟩
    cases hnode : fs.node? (pre ++ (name :: q ++ r)) with
    | none => rfl
    | some node =>
      have hthere := fs.isSome_node?_of_append hnode
      rw [List.cons_append, hfree.1] at hthere
      cases hthere
  refine ⟨?_, ?_, ?_, ?_⟩
  · rintro _ ⟨⟩
    refine ⟨hp, hsome, Option.eq_none_iff_forall_ne_some.mpr fun n hn => ?_⟩
    obtain ⟨x, hx, hmoved⟩ := FileSystem.exists_of_node?_moveTree h hne hn
    by_cases hs : p ++ r <:+ x
    · obtain ⟨pre, rfl⟩ := hs
      rw [FileSystem.movedPlace_append] at hmoved
      rw [hvacant _ ⟨pre, hmoved⟩] at hsome
      cases hsome
    · rw [FileSystem.movedPlace_of_not_suffix _ hs] at hmoved
      exact hs (hmoved ▸ List.suffix_rfl)
  · rintro _ ⟨⟩
    obtain ⟨n, hn⟩ := Option.isSome_iff_exists.mp hsome
    have hthere := FileSystem.node?_moveTree h hne hn
    have hmoved := FileSystem.movedPlace_append (p ++ r) (name :: (q ++ r)) []
    rw [List.nil_append] at hmoved
    rw [hmoved] at hthere
    exact ⟨List.cons_ne_nil _ _, hfree.1, Option.isSome_iff_exists.mpr ⟨n, hthere⟩⟩
  · rintro _ _ ⟨⟩ x
    refine Option.ext fun n => ⟨fun hn => ?_, fun hn => ?_⟩
    · obtain ⟨y, hy, hmoved⟩ := FileSystem.exists_of_node?_moveTree h (by simp) hn
      by_cases hs : p ++ r <:+ y
      · obtain ⟨pre, rfl⟩ := hs
        rw [FileSystem.movedPlace_append, List.append_assoc] at hmoved
        rwa [List.append_cancel_right hmoved, ← List.append_assoc] at hy
      · rw [FileSystem.movedPlace_of_not_suffix _ hs] at hmoved
        rw [hvacant y ⟨x, by rw [hmoved, List.append_assoc]⟩] at hy
        cases hy
    · have hthere := FileSystem.node?_moveTree h (by simp [hp]) hn
      rwa [List.append_assoc, FileSystem.movedPlace_append, ← List.cons_append,
        ← List.append_assoc] at hthere
  · intro x hleft htaken
    by_cases hx : x = []
    · rw [hx, FileSystem.node?_root, FileSystem.node?_root]
    refine Option.ext fun n => ⟨fun hn => ?_, fun hn => ?_⟩
    · obtain ⟨y, hy, hmoved⟩ := FileSystem.exists_of_node?_moveTree h hx hn
      by_cases hs : p ++ r <:+ y
      · obtain ⟨pre, rfl⟩ := hs
        rw [FileSystem.movedPlace_append] at hmoved
        exact absurd ⟨pre, hmoved⟩ (htaken _ rfl)
      · rw [FileSystem.movedPlace_of_not_suffix _ hs] at hmoved
        exact hmoved ▸ hy
    · have hthere := FileSystem.node?_moveTree h hx hn
      rwa [FileSystem.movedPlace_of_not_suffix _ (hleft p rfl)] at hthere

end Elementary

/-! ### What the operating system tells -/

namespace Signal

/-- The signal says that something came to the path. -/
inductive Creates (p : Path) : Signal → Prop
  | create (kind : EntryKind) : Creates p { kind := .create kind, paths := [p] }
  | renamed : Creates p { kind := .modify (.name .new), paths := [p] }

/-- The signal says that what was at the path is gone. -/
inductive Deletes (p : Path) : Signal → Prop
  | remove (kind : EntryKind) : Deletes p { kind := .remove kind, paths := [p] }
  | renamed : Deletes p { kind := .modify (.name .old), paths := [p] }

/-- The signal about a whole rename. -/
def renames (p q : Path) : Signal := { kind := .modify (.name .both), paths := [p, q] }

variable {p q : Path} {s : Signal}

theorem Creates.changes (h : s.Creates p) (fs : FileSystem) : s.changes fs = [.created p] := by
  cases h <;> rfl

theorem Deletes.changes (h : s.Deletes p) (fs : FileSystem) : s.changes fs = [.deleted p] := by
  cases h <;> rfl

theorem changes_renames (p q : Path) (fs : FileSystem) :
    (renames p q).changes fs = [.deleted p, .created q] := rfl

theorem Creates.unique (h : s.Creates p) (h' : s.Creates q) : p = q := by
  cases h <;> cases h' <;> rfl

theorem Creates.rescan (h : s.Creates p) : s.rescan = false := by
  cases h <;> rfl

theorem Deletes.rescan (h : s.Deletes p) : s.rescan = false := by
  cases h <;> rfl

end Signal

namespace Alteration

/-- The directory around the place is registered. -/
def Seen (c : Coverage) (root : Path) (p : Place) : Prop :=
  c.isRegistered (root.under p.tail) = true

instance (c : Coverage) (root : Path) (p : Place) : Decidable (Seen c root p) :=
  inferInstanceAs (Decidable (_ = _))

/-- Signals that tell of an alteration when the coverage is `c`: each is about one side that is seen
or about both sides, and no side that is seen is left out. In which order they come, and whether a
side is told more than once, is open. -/
structure Tells (a : Alteration) (root : Path) (c : Coverage) (signals : List Signal) : Prop where
  only : ∀ s ∈ signals,
    (∃ p, a.left? = some p ∧ Seen c root p ∧ s.Deletes (root.under p)) ∨
      (∃ q, a.taken? = some q ∧ Seen c root q ∧ s.Creates (root.under q)) ∨
        ∃ p q, a = .moves p q ∧ Seen c root p ∧ Seen c root q ∧
          s = .renames (root.under p) (root.under q)
  left : ∀ p, a.left? = some p → Seen c root p →
    ∃ s ∈ signals, s.Deletes (root.under p) ∨ ∃ q, s = .renames (root.under p) (root.under q)
  taken : ∀ q, a.taken? = some q → Seen c root q →
    ∃ s ∈ signals, s.Creates (root.under q) ∨ ∃ p, s = .renames (root.under p) (root.under q)

/-- One signal tells of something that appears. -/
theorem tells_appears {root : Path} {c : Coverage} {p : Place} {s : Signal}
    (hseen : Seen c root p) (hs : s.Creates (root.under p)) :
    (Alteration.appears p).Tells root c [s] where
  only := by
    intro s' hs'
    rw [List.mem_singleton.mp hs']
    exact .inr (.inl ⟨p, rfl, hseen, hs⟩)
  left := nofun
  taken := by
    rintro q ⟨⟩ -
    exact ⟨s, List.mem_singleton_self s, .inl hs⟩

/-- One signal tells of something that vanishes. -/
theorem tells_vanishes {root : Path} {c : Coverage} {p : Place} {s : Signal}
    (hseen : Seen c root p) (hs : s.Deletes (root.under p)) :
    (Alteration.vanishes p).Tells root c [s] where
  only := by
    intro s' hs'
    rw [List.mem_singleton.mp hs']
    exact .inl ⟨p, rfl, hseen, hs⟩
  left := by
    rintro q ⟨⟩ -
    exact ⟨s, List.mem_singleton_self s, .inl hs⟩
  taken := nofun

/-- Nothing tells of something that appears in a directory that is not registered. -/
theorem tells_appears_nil {root : Path} {c : Coverage} {p : Place} (hseen : ¬Seen c root p) :
    (Alteration.appears p).Tells root c [] where
  only := nofun
  left := nofun
  taken := by
    rintro q ⟨⟩ hq
    exact absurd hq hseen

/-- One signal tells of a rename of which both sides are seen. -/
theorem tells_moves {root : Path} {c : Coverage} {p q : Place} (hp : Seen c root p)
    (hq : Seen c root q) :
    (Alteration.moves p q).Tells root c [.renames (root.under p) (root.under q)] where
  only := by
    intro s hs
    exact .inr (.inr ⟨p, q, rfl, hp, hq, List.mem_singleton.mp hs⟩)
  left := by
    rintro _ ⟨⟩ -
    exact ⟨_, List.mem_singleton_self _, .inr ⟨q, rfl⟩⟩
  taken := by
    rintro _ ⟨⟩ -
    exact ⟨_, List.mem_singleton_self _, .inr ⟨p, rfl⟩⟩

/-- The change is the deletion of the side that is left, which is seen. -/
def IsLoss (a : Alteration) (root : Path) (c : Coverage) (change : Change) : Prop :=
  ∃ p, a.left? = some p ∧ Seen c root p ∧ change = .deleted (root.under p)

/-- The change is the creation of the side that is taken, which is seen. -/
def IsGain (a : Alteration) (root : Path) (c : Coverage) (change : Change) : Prop :=
  ∃ q, a.taken? = some q ∧ Seen c root q ∧ change = .created (root.under q)

namespace Tells

variable {a : Alteration} {root : Path} {c : Coverage} {signals : List Signal} {p q : Place}
  (h : a.Tells root c signals)
include h

theorem rescan {s : Signal} (hs : s ∈ signals) : s.rescan = false := by
  rcases h.only s hs with ⟨p, -, -, hdeletes⟩ | ⟨q, -, -, hcreates⟩ | ⟨p, q, -, -, -, rfl⟩
  · exact hdeletes.rescan
  · exact hcreates.rescan
  · rfl

/-- The signals are read as changes of the two sides. -/
theorem isLoss_or_isGain (fs : FileSystem) {change : Change}
    (hchange : change ∈ signals.flatMap (·.changes fs)) :
    a.IsLoss root c change ∨ a.IsGain root c change := by
  obtain ⟨s, hs, hchange⟩ := List.mem_flatMap.mp hchange
  rcases h.only s hs with ⟨p, hp, hseen, hdeletes⟩ | ⟨q, hq, hseen, hcreates⟩ |
    ⟨p, q, rfl, hseenLeft, hseenTaken, rfl⟩
  · rw [hdeletes.changes, List.mem_singleton] at hchange
    exact .inl ⟨p, hp, hseen, hchange⟩
  · rw [hcreates.changes, List.mem_singleton] at hchange
    exact .inr ⟨q, hq, hseen, hchange⟩
  · rw [Signal.changes_renames, List.mem_pair] at hchange
    exact hchange.imp (fun heq => ⟨p, rfl, hseenLeft, heq⟩) fun heq => ⟨q, rfl, hseenTaken, heq⟩

theorem deleted_mem (fs : FileSystem) (hp : a.left? = some p) (hseen : Seen c root p) :
    .deleted (root.under p) ∈ signals.flatMap (·.changes fs) := by
  obtain ⟨s, hs, hdeletes | ⟨q, rfl⟩⟩ := h.left p hp hseen
  · exact List.mem_flatMap.mpr ⟨s, hs, by rw [hdeletes.changes]; simp⟩
  · exact List.mem_flatMap.mpr ⟨_, hs, by rw [Signal.changes_renames]; simp⟩

theorem created_mem (fs : FileSystem) (hq : a.taken? = some q) (hseen : Seen c root q) :
    .created (root.under q) ∈ signals.flatMap (·.changes fs) := by
  obtain ⟨s, hs, hcreates | ⟨p, rfl⟩⟩ := h.taken q hq hseen
  · exact List.mem_flatMap.mpr ⟨s, hs, by rw [hcreates.changes]; simp⟩
  · exact List.mem_flatMap.mpr ⟨_, hs, by rw [Signal.changes_renames]; simp⟩

end Tells

end Alteration

end WorkspaceWatch
