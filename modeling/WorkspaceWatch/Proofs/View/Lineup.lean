import WorkspaceWatch.View.Lineup

/-!
# Once all have answered, they stand in view order

A heap is *ordered* if no number in it is less than the one above it, and then the one in front is
the least. Rising and sinking restore the order around the one position at which it may be broken
(`Heap.OrderedAround`), so inserting and removing keep it.

So the answers that wait in a lineup are those that come after the gap (`Lineup.IsTidy`): whenever
the gap is closed the next of them is in front and moves up. When the answers of all views have
come there is no gap any more, and they stand in view order: `Lineup.toList_ofList`.
-/

namespace WorkspaceWatch

namespace Heap

/-- The position above another one. -/
def above (i : Nat) : Nat := (i - 1) / 2

theorem above_lt {i : Nat} (h : 0 < i) : above i < i := by
  unfold above
  omega

/-- Which positions are below another one. -/
theorem above_eq_iff {i j : Nat} (h : 0 < j) : above j = i ↔ j = 2 * i + 1 ∨ j = 2 * i + 2 := by
  unfold above
  omega

/-- No number is less than the one above it. -/
def IsOrdered (h : Heap) : Prop :=
  ∀ j, 0 < j → j < h.size → h.number (above j) ≤ h.number j

/-- Whatever the number at the position `i` is, the others are in order. -/
structure OrderedAround (h : Heap) (i : Nat) : Prop where
  elsewhere : ∀ j, 0 < j → j < h.size → j ≠ i → above j ≠ i → h.number (above j) ≤ h.number j
  /-- What is below the position is not less than what is above it. -/
  across : 0 < i → ∀ j, 0 < j → j < h.size → above j = i → h.number (above i) ≤ h.number j

/-- What is below the position is not less than what is there. -/
def Tops (h : Heap) (i : Nat) : Prop :=
  ∀ j, 0 < j → j < h.size → above j = i → h.number i ≤ h.number j

variable {h : Heap} {i j c n : Nat}

theorem number_exchange (hi : i < h.size) (hj : j < h.size) (k : Nat) :
    (h.exchange i j).number k =
      if k = j then h.number i else if k = i then h.number j else h.number k := by
  rw [number, exchange, Array.swapIfInBounds_def, dif_pos hi, dif_pos hj]
  simp only [number, Array.getD_eq_getD_getElem?, Array.getElem?_swap]
  grind

/-- The number in front is the least. -/
theorem IsOrdered.front_le (hh : h.IsOrdered) : ∀ j < h.size, h.number 0 ≤ h.number j := by
  intro j
  induction j using Nat.strongRecOn with
  | ind j ih =>
    intro hj
    rcases Nat.eq_zero_or_pos j with rfl | hpos
    · exact Nat.le_refl _
    · have habove := above_lt hpos
      exact Nat.le_trans (ih _ habove (by omega)) (hh j hpos hj)

/-! ### Rising and sinking -/

/-- A number that is less than the one above it changes places with it. -/
theorem OrderedAround.exchange_above (hh : h.OrderedAround i) (hpos : 0 < i) (hi : i < h.size)
    (hless : h.number i < h.number (above i)) :
    (h.exchange i (above i)).OrderedAround (above i) ∧
      (h.exchange i (above i)).Tops (above i) := by
  have hlt := above_lt hpos
  have hnumber := number_exchange hi (Nat.lt_trans hlt hi)
  -- The numbers below the one above: `i` itself has got a greater one, the others are as before.
  have hbelow : ∀ j, 0 < j → j < h.size → above j = above i →
      h.number (above i) ≤ (h.exchange i (above i)).number j := by
    intro j hj hjs habove
    have hne : j ≠ above i := by
      have := above_lt hj
      omega
    rw [hnumber, if_neg hne]
    split
    · exact Nat.le_refl _
    · next hji => exact habove ▸ hh.elsewhere j hj hjs hji (by omega)
  refine ⟨⟨fun j hj hjs hne hab => ?_, fun habove j hj hjs hab => ?_⟩, fun j hj hjs hab => ?_⟩
  · rw [size_exchange] at hjs
    have hji : j ≠ i := fun heq => hab (heq ▸ rfl)
    rw [hnumber, hnumber, if_neg hab, if_neg hne, if_neg hji]
    split
    · next heq => exact hh.across hpos j hj hjs heq
    · next hne' => exact hh.elsewhere j hj hjs hji hne'
  · rw [size_exchange] at hjs
    refine Nat.le_trans ?_ (hbelow j hj hjs hab)
    have hlt' := above_lt habove
    rw [hnumber, if_neg (by omega), if_neg (by omega)]
    exact hh.elsewhere _ habove (Nat.lt_trans hlt hi) (by omega) (by omega)
  · rw [size_exchange] at hjs
    rw [hnumber (above i), if_pos rfl]
    exact Nat.le_trans (Nat.le_of_lt hless) (hbelow j hj hjs hab)

/-- Rising restores the order. -/
theorem isOrdered_rise (hh : h.OrderedAround i) (htops : h.Tops i) (hi : i < h.size) :
    (rise i h).IsOrdered := by
  have hordered : ∀ {i h}, OrderedAround h i → h.Tops i →
      (0 < i → h.number (above i) ≤ h.number i) → h.IsOrdered := by
    intro i h hh htops htop j hj hjs
    by_cases hji : j = i
    · exact hji ▸ htop (hji ▸ hj)
    · by_cases hab : above j = i
      · exact hab ▸ htops j hj hjs hab
      · exact hh.elsewhere j hj hjs hji hab
  fun_induction rise i h with
  | case1 h => exact hordered hh htops fun hpos => absurd hpos (Nat.lt_irrefl 0)
  | case2 i h hne above' hless ih =>
    have hpos := Nat.pos_of_ne_zero hne
    obtain ⟨hh', htops'⟩ := hh.exchange_above hpos hi hless
    exact ih hh' htops' (by rw [size_exchange]; exact Nat.lt_trans (above_lt hpos) hi)
  | case3 i h hne above' hless => exact hordered hh htops fun _ => Nat.le_of_not_lt hless

/-- The least of the numbers below a position changes places with the one there. -/
theorem OrderedAround.exchange_below (hh : h.OrderedAround i) (hc : 0 < c) (hcs : c < h.size)
    (habove : above c = i) (hleast : ∀ j, 0 < j → j < h.size → above j = i →
      h.number c ≤ h.number j) : (h.exchange i c).OrderedAround c := by
  have hlt : i < c := habove ▸ above_lt hc
  have hnumber := number_exchange (Nat.lt_trans hlt hcs) hcs
  refine ⟨fun j hj hjs hne hab => ?_, fun _ j hj hjs hab => ?_⟩
  · rw [size_exchange] at hjs
    rw [hnumber, hnumber, if_neg hab, if_neg hne]
    by_cases hji : j = i
    · have hltj := above_lt hj
      rw [if_neg (by omega), if_pos hji]
      exact hji ▸ hh.across (hji ▸ hj) c hc hcs habove
    · rw [if_neg hji]
      split
      · next heq => exact hleast j hj hjs heq
      · next hne' => exact hh.elsewhere j hj hjs hji hne'
  · rw [size_exchange] at hjs
    have hltj := above_lt hj
    rw [habove, hnumber, hnumber, if_neg (by omega), if_pos rfl, if_neg (by omega),
      if_neg (by omega), ← hab]
    exact hh.elsewhere j hj hjs (by omega) (by omega)

/-- Sinking restores the order. -/
theorem isOrdered_sink (hh : h.OrderedAround i) (hi : i < h.size) : (sink i h).IsOrdered := by
  fun_induction sink i h with
  | case1 i h below hsize lesser ih =>
    have habove : above lesser = i := by
      refine (above_eq_iff (by grind)).mpr (by grind)
    refine ih (hh.exchange_below (by grind) (by grind) habove fun j hj hjs hab => ?_) ?_
    · rcases (above_eq_iff hj).mp hab with rfl | rfl <;> grind
    · rw [size_exchange]
      grind
  | case2 i h below hsize hlast =>
    have hpos : 0 < below := Nat.succ_pos _
    have honly : ∀ j, 0 < j → j < h.size → above j = i → j = below := by
      intro j hj hjs hab
      have := (above_eq_iff hj).mp hab
      omega
    refine isOrdered_rise (hh.exchange_below hpos hlast ((above_eq_iff hpos).mpr (.inl rfl))
      fun j hj hjs hab => ?_) (fun j hj hjs hab => ?_) (by rwa [size_exchange])
    · exact Nat.le_of_eq (congrArg h.number (honly j hj hjs hab).symm)
    · have := (above_eq_iff hj).mp hab
      rw [size_exchange] at hjs
      omega
  | case3 i h below hsize hlast =>
    refine isOrdered_rise hh (fun j hj hjs hab => ?_) hi
    have := (above_eq_iff hj).mp hab
    omega

theorem isOrdered_insert (hh : h.IsOrdered) (n : Nat) : (h.insert n).IsOrdered := by
  have hnumber : ∀ j < h.size, number (h.push n) j = h.number j := by
    intro j hj
    simp [number, Array.getElem?_push_lt, hj]
  rw [insert]
  refine isOrdered_rise ⟨fun j hj hjs hne hab => ?_, fun hpos j hj hjs hab => ?_⟩
    (fun j hj hjs hab => ?_) (by simp)
  · rw [Array.size_push] at hjs
    have hlt := above_lt hj
    rw [hnumber j (by omega), hnumber _ (by omega)]
    exact hh j hj (by omega)
  · rw [Array.size_push] at hjs
    have hlt := above_lt hj
    omega
  · rw [Array.size_push] at hjs
    have hlt := above_lt hj
    omega

theorem isOrdered_removeFirst (hh : h.IsOrdered) : h.removeFirst.IsOrdered := by
  have hsize : (h.exchange 0 (h.size - 1)).pop.size = h.size - 1 := by
    rw [Array.size_pop, size_exchange]
  -- All but the number in front stand where they stood.
  have hnumber : ∀ j, 0 < j → j < h.size - 1 →
      number (h.exchange 0 (h.size - 1)).pop j = h.number j := by
    intro j hj hjs
    have hpop : number (h.exchange 0 (h.size - 1)).pop j =
        (h.exchange 0 (h.size - 1)).number j := by
      simp only [number, Array.getD_eq_getD_getElem?, Array.getElem?_pop]
      rw [size_exchange, if_pos hjs]
    rw [hpop, number_exchange (by omega) (by omega), if_neg (by omega), if_neg (by omega)]
  rw [removeFirst]
  by_cases hnone : h.size - 1 = 0
  · intro j hj hjs
    rw [(perm_sink _ _).size_eq, hsize, hnone] at hjs
    exact absurd hjs (Nat.not_lt_zero j)
  · refine isOrdered_sink ⟨fun j hj hjs _ hab => ?_, fun hpos => absurd hpos (Nat.lt_irrefl 0)⟩
      (by omega)
    have hlt := above_lt hj
    rw [hsize] at hjs
    rw [hnumber j hj hjs, hnumber _ (Nat.pos_of_ne_zero hab) (by omega)]
    exact hh j hj (by omega)

/-- The number in front is the least. -/
theorem IsOrdered.le_of_front (hh : h.IsOrdered) (hn : h[0]? = some n) :
    ∀ m ∈ h.toList, n ≤ m := by
  intro m hm
  obtain ⟨j, hj, rfl⟩ := List.mem_iff_getElem.mp hm
  have hsize : j < h.size := by simpa using hj
  simpa [number, hn, Array.getElem?_eq_getElem hsize] using hh.front_le j hsize

end Heap

namespace Lineup

variable {l : Lineup} {n : Nat} {numbers : List Nat}

/-- All that waits comes after the gap. -/
structure IsTidy (l : Lineup) : Prop where
  ordered : l.early.IsOrdered
  waits : ∀ n ∈ l.early.toList, l.inRow < n

/-- Once everything whose turn it is has moved up, a lineup is tidy. -/
theorem isTidy_moveUp {limit : Nat} (hlimit : l.early.size ≤ limit) (hordered : l.early.IsOrdered)
    (hnodup : l.early.toList.Nodup) (hle : ∀ n ∈ l.early.toList, l.inRow ≤ n) :
    (moveUp limit l).IsTidy := by
  induction limit generalizing l with
  | zero =>
    have hnil : l.early.toList = [] := by
      rw [← List.length_eq_zero_iff, Array.length_toList]
      omega
    exact ⟨hordered, by simp [moveUp, hnil]⟩
  | succ limit ih =>
    rw [moveUp]
    split
    · next hfront =>
      have hperm := Heap.perm_removeFirst hfront
      obtain ⟨hgone, hnodup'⟩ := List.nodup_cons.mp (hperm.nodup_iff.mp hnodup)
      refine ih ?_ (Heap.isOrdered_removeFirst hordered) hnodup' fun n hn => ?_
      · have := hperm.length_eq
        simp only [Array.length_toList, List.length_cons] at this
        show l.early.removeFirst.size ≤ limit
        omega
      · have hge := hle n (hperm.mem_iff.mpr (List.mem_cons_of_mem _ hn))
        exact Nat.lt_of_le_of_ne hge fun heq => hgone (heq ▸ hn)
    · next hfront =>
      refine ⟨hordered, fun n hn => ?_⟩
      have hpos : 0 < l.early.size := by
        rw [← Array.length_toList]
        exact List.length_pos_of_mem hn
      have hfirst := Array.getElem?_eq_getElem hpos
      have hge := hle _ (Array.mem_toList_iff.mpr (Array.getElem_mem hpos))
      have hne : l.inRow ≠ l.early[0] := fun heq => hfront (by rw [hfirst, heq])
      exact Nat.lt_of_lt_of_le (Nat.lt_of_le_of_ne hge hne) (hordered.le_of_front hfirst n hn)

/-- A lineup is tidy after each answer that comes. -/
theorem IsTidy.add (h : l.IsTidy) (hnodup : (n :: l.toList).Nodup) : (l.add n).IsTidy := by
  obtain ⟨hnew, hnodup⟩ := List.nodup_cons.mp hnodup
  rw [toList, List.mem_append, List.mem_range, not_or] at hnew
  rw [Lineup.add]
  split
  · next heq =>
    refine isTidy_moveUp (Nat.le_refl _) h.ordered ?_ h.waits
    exact (List.nodup_append.mp hnodup).1
  · next hne =>
    refine ⟨Heap.isOrdered_insert h.ordered n, fun m hm => ?_⟩
    rcases List.mem_cons.mp ((Heap.perm_insert n l.early).mem_iff.mp hm) with rfl | hm
    · exact Nat.lt_of_le_of_ne (Nat.le_of_not_lt hnew.2) (Ne.symm hne)
    · exact h.waits m hm

theorem isTidy_ofList (hnodup : numbers.Nodup) : (ofList numbers).IsTidy := by
  have hfold : ∀ l : Lineup, l.IsTidy → (numbers ++ l.toList).Nodup →
      (numbers.foldl Lineup.add l).IsTidy := by
    clear hnodup
    induction numbers with
    | nil => exact fun l h _ => h
    | cons n numbers ih =>
      intro l h hnodup
      have hperm : (n :: numbers ++ l.toList).Perm (numbers ++ (l.add n).toList) := by
        refine List.Perm.trans ?_ ((perm_toList_add l n).symm.append_left numbers)
        exact List.perm_middle.symm
      refine ih (l.add n) (h.add ?_) (hperm.nodup_iff.mp hnodup)
      exact hnodup.sublist ((List.sublist_append_right numbers l.toList).cons_cons n)
  exact hfold {} ⟨fun j _ hj => absurd hj (Nat.not_lt_zero j), by simp⟩ (by simpa [toList])

/-- **When all have answered, they stand in view order**, in whatever order they have answered. -/
theorem toList_ofList (hall : numbers.Perm (List.range n)) :
    (ofList numbers).toList = List.range n := by
  have htidy := isTidy_ofList (hall.nodup_iff.mpr List.nodup_range)
  have hperm := (perm_toList_ofList numbers).trans hall
  generalize ofList numbers = l at htidy hperm
  -- The gap is a number that has come, but it neither stands in the row nor waits.
  have hnone : l.early.toList = [] := by
    rw [List.eq_nil_iff_forall_not_mem]
    intro m hm
    have hwaits := htidy.waits m hm
    have hlt : m < n := List.mem_range.mp (hperm.mem_iff.mp (List.mem_append_left _ hm))
    have hgap : l.inRow ∈ l.toList := hperm.mem_iff.mpr (List.mem_range.mpr (by omega))
    rcases List.mem_append.mp hgap with hgap | hgap
    · exact absurd (htidy.waits _ hgap) (Nat.lt_irrefl _)
    · exact absurd (List.mem_range.mp hgap) (Nat.lt_irrefl _)
  rw [toList, hnone, List.nil_append] at hperm ⊢
  rw [← List.length_range (n := l.inRow), hperm.length_eq, List.length_range]

end Lineup

end WorkspaceWatch
