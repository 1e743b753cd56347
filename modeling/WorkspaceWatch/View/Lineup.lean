import WorkspaceWatch.View.Heap

/-!
# Lining up answers

Answers of numbered views come in any order and are wanted in the order of the numbers. Those that
have come in a row from the first view on are lined up; the others are early and wait in a heap
until the gap before them is closed.

However they stand, they are the answers that have come: `perm_toList_ofList`.
-/

namespace WorkspaceWatch

/-- The answers that have come, by number. -/
structure Lineup where
  /-- How many of them follow on each other from the first view on. -/
  inRow : Nat := 0
  /-- All the others. -/
  early : Heap := #[]
  deriving DecidableEq, Repr

namespace Lineup

/-- Early answers whose turn it is now move up, at most so many of them. -/
def moveUp : (limit : Nat) → Lineup → Lineup
  | 0, l => l
  | limit + 1, l =>
    if l.early[0]? = some l.inRow then moveUp limit ⟨l.inRow + 1, l.early.removeFirst⟩ else l

/-- One more answer has come. -/
def add (l : Lineup) (number : Nat) : Lineup :=
  if number = l.inRow then moveUp l.early.size { l with inRow := l.inRow + 1 }
  else { l with early := l.early.insert number }

/-- The answers that come in some order. -/
def ofList (numbers : List Nat) : Lineup := numbers.foldl add {}

/-- The answers as they stand: the early ones in the order of their heap, then those in a row. -/
def toList (l : Lineup) : List Nat := l.early.toList ++ List.range l.inRow

theorem perm_toList_moveUp (limit : Nat) (l : Lineup) : (moveUp limit l).toList.Perm l.toList := by
  induction limit generalizing l with
  | zero => exact .refl _
  | succ limit ih =>
    rw [moveUp]
    split
    · next h =>
      refine (ih _).trans ?_
      rw [toList, toList, List.range_succ, ← List.append_assoc]
      refine List.perm_append_comm.trans (.trans ?_ ((Heap.perm_removeFirst h).symm.append_right _))
      simp
    · exact .refl _

theorem perm_toList_add (l : Lineup) (number : Nat) :
    (l.add number).toList.Perm (number :: l.toList) := by
  rw [add]
  split
  · next h =>
    refine (perm_toList_moveUp _ _).trans ?_
    rw [toList, toList, List.range_succ, ← List.append_assoc, h]
    exact List.perm_append_comm
  · exact (Heap.perm_insert number l.early).append_right _

/-- The answers that stand are those that have come. -/
theorem perm_toList_ofList (numbers : List Nat) : (ofList numbers).toList.Perm numbers := by
  have (l : Lineup) : (numbers.foldl add l).toList.Perm (numbers ++ l.toList) := by
    induction numbers generalizing l with
    | nil => exact .refl _
    | cons n ns ih =>
      refine (ih (l.add n)).trans (((perm_toList_add l n).append_left ns).trans ?_)
      exact List.perm_middle
  simpa [ofList, toList] using this {}

end Lineup

end WorkspaceWatch
