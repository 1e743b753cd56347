/-!
# Heaps

A heap is a row of numbers that is read as a tree: below the number at position `i` are those at
`2 * i + 1` and `2 * i + 2`, and none of them is less than it. So the least number is in front. A
number is inserted at the end and rises from there; when the first one is removed, the last takes
its place, sinks to the end of a branch and rises again.

Who goes through a heap from the front meets the numbers in an order that depends on how they came
and went. Which numbers they are does not: `perm_insert` and `perm_removeFirst`.
-/

namespace WorkspaceWatch

/-- A row of numbers that is read as a tree. -/
abbrev Heap := Array Nat

namespace Heap

/-- The number at a position. -/
def number (h : Heap) (i : Nat) : Nat := h.getD i 0

/-- The numbers at two positions change places. -/
def exchange (h : Heap) (i j : Nat) : Heap := h.swapIfInBounds i j

/-- The number at a position changes places with the one above it as long as it is less. -/
def rise (i : Nat) (h : Heap) : Heap :=
  if _h : i = 0 then h
  else
    let above := (i - 1) / 2
    if h.number i < h.number above then rise above (h.exchange i above) else h
  termination_by i
  decreasing_by omega

theorem size_exchange (h : Heap) (i j : Nat) : (h.exchange i j).size = h.size := by
  simp [exchange]

/-- The number at a position changes places with the lesser one of those below it until it is at the
end of a branch, and then it rises. -/
def sink (i : Nat) (h : Heap) : Heap :=
  let below := 2 * i + 1
  if _h : below + 1 < h.size then
    let lesser := if h.number below < h.number (below + 1) then below else below + 1
    sink lesser (h.exchange i lesser)
  else if below < h.size then rise below (h.exchange i below)
  else rise i h
  termination_by h.size - i
  decreasing_by
    rw [size_exchange]
    split <;> omega

/-- A heap with one more number. -/
def insert (n : Nat) (h : Heap) : Heap := rise h.size (h.push n)

/-- A heap without the number in front. -/
def removeFirst (h : Heap) : Heap := sink 0 (h.exchange 0 (h.size - 1)).pop

/-! ### The numbers in a heap -/

theorem perm_exchange (h : Heap) (i j : Nat) : (h.exchange i j).Perm h := by
  rw [exchange, Array.swapIfInBounds_def]
  split
  · split
    · exact Array.swap_perm _ _
    · exact .refl h
  · exact .refl h

theorem perm_rise (i : Nat) (h : Heap) : (rise i h).Perm h := by
  fun_induction rise i h with
  | case1 h => exact .refl h
  | case2 i h _ above _ ih => exact ih.trans (perm_exchange h i above)
  | case3 i h => exact .refl h

theorem perm_sink (i : Nat) (h : Heap) : (sink i h).Perm h := by
  fun_induction sink i h with
  | case1 i h below _ lesser ih => exact ih.trans (perm_exchange h i lesser)
  | case2 i h below => exact (perm_rise _ _).trans (perm_exchange h i below)
  | case3 i h => exact perm_rise i h

/-- Inserting adds the number and nothing else. -/
theorem perm_insert (n : Nat) (h : Heap) : (h.insert n).toList.Perm (n :: h.toList) := by
  refine (Array.perm_iff_toList_perm.1 (perm_rise _ _)).trans ?_
  rw [Array.toList_push]
  exact List.perm_append_comm

/-- What is removed is the number in front and nothing else. -/
theorem perm_removeFirst {h : Heap} {n : Nat} (hn : h[0]? = some n) :
    h.toList.Perm (n :: h.removeFirst.toList) := by
  obtain ⟨hpos, rfl⟩ := Array.getElem?_eq_some_iff.1 hn
  have hlast : h.size - 1 < h.size := by omega
  have hswap : h.exchange 0 (h.size - 1) = h.swap 0 (h.size - 1) hpos hlast := by
    rw [exchange, Array.swapIfInBounds_def, dif_pos hpos, dif_pos hlast]
  have hback : (h.exchange 0 (h.size - 1)).toList =
      (h.exchange 0 (h.size - 1)).pop.toList ++ [h[0]] := by
    rw [hswap]
    apply List.ext_getElem
    · simp; omega
    · intro i hi _
      by_cases hlt : i < h.size - 1
      · rw [List.getElem_append_left (by simpa using hlt)]
        simp
      · have : i = h.size - 1 := by simp at hi; omega
        subst this
        rw [List.getElem_append_right (by simp)]
        simp
  refine (Array.perm_iff_toList_perm.1 (perm_exchange h 0 (h.size - 1))).symm.trans ?_
  rw [hback]
  refine List.perm_append_comm.trans (List.Perm.cons _ ?_)
  exact (Array.perm_iff_toList_perm.1 (perm_sink 0 _)).symm

end Heap

end WorkspaceWatch
