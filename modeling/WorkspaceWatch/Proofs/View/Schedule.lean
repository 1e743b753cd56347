import Mathlib.Algebra.GroupWithZero.Nat
import Mathlib.Algebra.Order.BigOperators.Group.List
import Mathlib.Algebra.Order.Group.Nat
import Mathlib.Data.List.Nodup
import Mathlib.Data.List.Basic
import WorkspaceWatch.View.Acquisition

/-!
# The order in which views answer

Whichever way views are asked, they answer in an **answering order**: no view answers twice, every
view that answers is one of those that were asked, and one that never answers does not. The three
ways of asking, one after the other, all at once and in portions, are shown to keep to that
(`Gathering.answeringOrder_schedule`), and all else about snapshots is proved for any such order.

Views that do give an answer all answer if only they have enough turns (`Gathering.perm_schedule`).
-/

namespace WorkspaceWatch

namespace View

variable {α : Type}

/-- The view gives an answer at some time. -/
def Answers (v : View α) : Prop := v.answer ≠ .never

/-- The view answers that it has no snapshot. -/
def fails (v : View α) : Bool :=
  match v.answer with
  | .failure _ => true
  | _ => false

theorem answersWithin_iff {v : View α} {n : Nat} :
    v.answersWithin n = true ↔ v.Answers ∧ v.delay ≤ n := by
  unfold answersWithin Answers
  cases v.answer <;> simp

end View

namespace Gathering

variable {α : Type} {views : List (View α)}

theorem mem_positioned {i : Nat} {v : View α} :
    (i, v) ∈ positioned views ↔ views[i]? = some v := by
  rw [positioned, List.mem_iff_getElem?]
  constructor
  · rintro ⟨j, hj⟩
    rw [List.getElem?_zip_eq_some] at hj
    obtain ⟨hrange, hv⟩ := hj
    obtain ⟨_, rfl⟩ := List.getElem?_eq_some_iff.mp hrange
    simpa using hv
  · intro hv
    refine ⟨i, List.getElem?_zip_eq_some.mpr ⟨?_, hv⟩⟩
    rw [List.getElem?_range (List.getElem?_eq_some_iff.mp hv).1]

theorem length_positioned : (positioned views).length = views.length := by
  simp [positioned]

theorem map_fst_positioned : (positioned views).map Prod.fst = List.range views.length := by
  rw [positioned, List.map_fst_zip (by simp)]

theorem map_snd_positioned (views : List (View α)) : (positioned views).map Prod.snd = views := by
  rw [positioned, List.map_snd_zip (by simp)]

theorem nodup_positioned (views : List (View α)) : (positioned views).Nodup :=
  List.Nodup.of_map Prod.fst (map_fst_positioned ▸ List.nodup_range)

/-- A position belongs to one view only. -/
theorem eq_of_mem_positioned {v w : Nat × View α} (hv : v ∈ positioned views)
    (hw : w ∈ positioned views) (h : v.1 = w.1) : v = w := by
  obtain ⟨i, v⟩ := v
  obtain ⟨j, w⟩ := w
  obtain rfl : i = j := h
  rw [mem_positioned] at hv hw
  rw [hv] at hw
  cases hw
  rfl

/-- **An answering order**: some of the views, each at most once, which do give an answer. -/
structure AnsweringOrder (views : List (View α)) (order : List (Nat × View α)) : Prop where
  nodup : order.Nodup
  mem : ∀ v ∈ order, v ∈ positioned views
  answers : ∀ v ∈ order, v.2.Answers

/-! ### The three ways of asking -/

private theorem inTurn_sublist (n : Nat) (vs : List (Nat × View α)) : (inTurn n vs).Sublist vs := by
  induction vs generalizing n with
  | nil => exact .refl _
  | cons v vs ih =>
    rw [inTurn]
    split
    · exact (ih _).cons_cons v
    · exact List.nil_sublist _

private theorem answers_of_mem_inTurn {n : Nat} {vs : List (Nat × View α)} {v : Nat × View α}
    (h : v ∈ inTurn n vs) : v.2.Answers := by
  induction vs generalizing n with
  | nil => cases h
  | cons w vs ih =>
    rw [inTurn] at h
    split at h
    · next hw =>
      rcases List.mem_cons.mp h with rfl | h
      · exact (View.answersWithin_iff.mp hw).1
      · exact ih h
    · cases h

private theorem nodup_atOnce (n : Nat) {vs : List (Nat × View α)} (hvs : vs.Nodup) :
    (atOnce n vs).Nodup := by
  rw [atOnce, List.nodup_flatMap]
  refine ⟨fun k _ => hvs.filter _, List.nodup_range.imp ?_⟩
  intro k k' hne v hv hv'
  simp only [List.mem_filter, Bool.and_eq_true, decide_eq_true_eq] at hv hv'
  exact hne (hv.2.2.symm.trans hv'.2.2)

/-- A crowd's answers are turns in which a view is ready. -/
private theorem served_sublist (pauses unanswered asked suspended : Nat)
    (ts : List (Nat × (Nat × View α))) :
    (served pauses unanswered asked suspended ts).Sublist
      ((ts.filter fun t => t.2.2.answersWithin t.1).map Prod.snd) := by
  fun_induction served pauses unanswered asked suspended ts with
  | case1 => exact List.nil_sublist _
  | case2 _ _ _ _ n v ts hv ih =>
    rw [List.filter_cons_of_pos (by simpa using hv), List.map_cons]
    exact ih.cons_cons v
  | case3 _ _ _ _ n v ts hv _ _ ih =>
    rw [List.filter_cons_of_neg (by simpa using hv)]
    exact ih
  | case4 => exact List.nil_sublist _
  | case5 _ _ _ n v ts hv _ _ _ ih =>
    rw [List.filter_cons_of_neg (by simpa using hv)]
    exact ih

private theorem mem_turns {rounds n : Nat} {vs : List (Nat × View α)} {v : Nat × View α} :
    (n, v) ∈ turns rounds vs ↔ n < rounds ∧ v ∈ vs ∧ n ≤ v.2.delay := by
  simp only [turns, List.mem_flatMap, List.mem_range, List.mem_map, List.mem_filter,
    decide_eq_true_eq, Prod.mk.injEq]
  constructor
  · rintro ⟨k, hk, w, hw, rfl, rfl⟩
    exact ⟨hk, hw⟩
  · rintro ⟨hn, hv⟩
    exact ⟨n, hn, v, hv, rfl, rfl⟩

private theorem nodup_turns (rounds : Nat) {vs : List (Nat × View α)} (hvs : vs.Nodup) :
    (turns rounds vs).Nodup := by
  rw [turns, List.nodup_flatMap]
  refine ⟨fun n _ => (hvs.filter _).map fun v w h => (Prod.mk.inj h).2, List.nodup_range.imp ?_⟩
  intro n n' hne t ht ht'
  obtain ⟨v, -, rfl⟩ := List.mem_map.mp ht
  obtain ⟨w, -, h⟩ := List.mem_map.mp ht'
  exact hne (Prod.mk.inj h).1.symm

/-- The one turn in which a view is ready is the one that comes after all its suspensions. -/
private theorem eq_delay_of_ready {rounds n : Nat} {vs : List (Nat × View α)} {v : Nat × View α}
    (h : (n, v) ∈ (turns rounds vs).filter fun t => t.2.2.answersWithin t.1) :
    v ∈ vs ∧ v.2.Answers ∧ n = v.2.delay := by
  rw [List.mem_filter, mem_turns, View.answersWithin_iff] at h
  obtain ⟨⟨-, hmem, hle⟩, hanswers, hge⟩ := h
  exact ⟨hmem, hanswers, Nat.le_antisymm hle hge⟩

private theorem nodup_ready (rounds : Nat) {vs : List (Nat × View α)} (hvs : vs.Nodup) :
    (((turns rounds vs).filter fun t => t.2.2.answersWithin t.1).map Prod.snd).Nodup := by
  refine List.Nodup.map_on ?_ ((nodup_turns rounds hvs).filter _)
  rintro ⟨n, v⟩ hv ⟨n', w⟩ hw (rfl : v = w)
  rw [(eq_delay_of_ready hv).2.2, (eq_delay_of_ready hw).2.2]

/-- However views are asked, they answer in an answering order. -/
theorem answeringOrder_schedule (concurrent : Bool) (suspensions : Nat) (views : List (View α)) :
    AnsweringOrder views (schedule concurrent suspensions (positioned views)) := by
  have hall := nodup_positioned views
  rw [schedule]
  split
  · have hsub := served_sublist suspensions (positioned views).length 0 0
      (turns (2 * (suspensions + 1) + (positioned views).length + 1) (positioned views))
    refine ⟨(nodup_ready _ hall).sublist hsub, fun v hv => ?_, fun v hv => ?_⟩
    · obtain ⟨⟨n, _⟩, ht, rfl⟩ := List.mem_map.mp (hsub.mem hv)
      exact (eq_delay_of_ready ht).1
    · obtain ⟨⟨n, _⟩, ht, rfl⟩ := List.mem_map.mp (hsub.mem hv)
      exact (eq_delay_of_ready ht).2.1
  · split
    · refine ⟨nodup_atOnce _ hall, fun v hv => ?_, fun v hv => ?_⟩
      · obtain ⟨_, -, hv⟩ := List.mem_flatMap.mp hv
        exact (List.mem_filter.mp hv).1
      · obtain ⟨_, -, hv⟩ := List.mem_flatMap.mp hv
        simp only [List.mem_filter, Bool.and_eq_true] at hv
        exact (View.answersWithin_iff.mp hv.2.1).1
    · exact ⟨hall.sublist (inTurn_sublist _ _), fun v hv => (inTurn_sublist _ _).mem hv,
        fun v hv => answers_of_mem_inTurn hv⟩

/-! ### Enough turns -/

/-- How many turns it takes until all of the views have answered. -/
def turnCount (views : List (View α)) : Nat := (views.map fun v => v.delay + 1).sum

theorem delay_lt_turnCount {v : View α} (hv : v ∈ views) : v.delay < turnCount views :=
  List.le_sum_of_mem (List.mem_map_of_mem (f := fun v => v.delay + 1) hv)

private theorem inTurn_eq_self {n : Nat} {vs : List (Nat × View α)}
    (hanswers : ∀ v ∈ vs, v.2.Answers) (hn : turnCount (vs.map Prod.snd) ≤ n) :
    inTurn n vs = vs := by
  induction vs generalizing n with
  | nil => rfl
  | cons v vs ih =>
    rw [turnCount, List.map_cons, List.map_cons, List.sum_cons] at hn
    obtain ⟨hv, hvs⟩ := List.forall_mem_cons.mp hanswers
    rw [inTurn, if_pos (View.answersWithin_iff.mpr ⟨hv, by omega⟩), ih hvs]
    rw [turnCount]
    omega

private theorem length_turns_le (rounds : Nat) (vs : List (Nat × View α)) :
    (turns rounds vs).length ≤ turnCount (vs.map Prod.snd) := by
  have hone : ∀ d rounds : Nat,
      ((List.range rounds).map fun n => if n ≤ d then 1 else 0).sum ≤ min rounds (d + 1) := by
    intro d rounds
    induction rounds with
    | zero => simp
    | succ rounds ih =>
      rw [List.range_succ, List.map_append, List.sum_append, List.map_singleton,
        List.sum_singleton]
      split <;> omega
  have hsum : (turns rounds vs).length =
      ((List.range rounds).map fun n => vs.countP fun v => n ≤ v.2.delay).sum := by
    rw [turns, List.length_flatMap]
    simp only [List.length_map, List.countP_eq_length_filter]
  rw [hsum]
  clear hsum
  induction vs with
  | nil => simp [turnCount]
  | cons v vs ih =>
    simp only [List.countP_cons, decide_eq_true_eq, List.sum_map_add]
    have hv := hone v.2.delay rounds
    rw [turnCount] at ih
    rw [turnCount, List.map_cons, List.map_cons, List.sum_cons]
    omega

/-- If there may be as many pauses as there are turns, a crowd has them all. -/
private theorem served_eq {pauses : Nat} {ts : List (Nat × (Nat × View α))}
    (hpauses : ts.length ≤ pauses) (unanswered asked suspended : Nat) :
    served pauses unanswered asked suspended ts =
      (ts.filter fun t => t.2.2.answersWithin t.1).map Prod.snd := by
  fun_induction served pauses unanswered asked suspended ts with
  | case1 => rfl
  | case2 _ _ _ _ n v ts hv ih =>
    rw [List.filter_cons_of_pos (by simpa using hv), List.map_cons,
      ih (Nat.le_of_succ_le hpauses)]
  | case3 _ _ _ _ n v ts hv _ _ ih =>
    rw [List.filter_cons_of_neg (by simpa using hv), ih (Nat.le_of_succ_le hpauses)]
  | case4 => cases hpauses
  | case5 _ _ _ n v ts hv _ _ _ ih =>
    rw [List.filter_cons_of_neg (by simpa using hv), ih (Nat.le_of_succ_le_succ hpauses)]

/-- With enough turns every view answers that will. -/
theorem mem_schedule (concurrent : Bool) {suspensions : Nat} {v : Nat × View α}
    (hanswers : ∀ v ∈ views, v.Answers) (hn : turnCount views ≤ suspensions)
    (hv : v ∈ positioned views) : v ∈ schedule concurrent suspensions (positioned views) := by
  have hview : v.2 ∈ views := map_snd_positioned views ▸ List.mem_map_of_mem hv
  have hdelay := delay_lt_turnCount hview
  have hready : v.2.answersWithin v.2.delay = true :=
    View.answersWithin_iff.mpr ⟨hanswers _ hview, Nat.le_refl _⟩
  rw [schedule]
  split
  · have hlength := length_turns_le (2 * (suspensions + 1) + (positioned views).length + 1)
      (positioned views)
    rw [map_snd_positioned] at hlength
    rw [inPortions, served_eq (hlength.trans hn)]
    refine List.mem_map.mpr ⟨(v.2.delay, v), List.mem_filter.mpr ⟨?_, hready⟩, rfl⟩
    exact mem_turns.mpr ⟨by omega, hv, Nat.le_refl _⟩
  · split
    · refine List.mem_flatMap.mpr ⟨v.2.delay, List.mem_range.mpr (by omega), ?_⟩
      exact List.mem_filter.mpr ⟨hv, by simp [hready]⟩
    · rw [inTurn_eq_self (fun w hw => hanswers _ ?_) (by rwa [map_snd_positioned])]
      · exact hv
      · exact map_snd_positioned views ▸ List.mem_map_of_mem hw

/-- **Enough turns**: then all views answer, in some order. -/
theorem perm_schedule (concurrent : Bool) {suspensions : Nat}
    (hanswers : ∀ v ∈ views, v.Answers) (hn : turnCount views ≤ suspensions) :
    (schedule concurrent suspensions (positioned views)).Perm (positioned views) := by
  have horder := answeringOrder_schedule concurrent suspensions views
  rw [List.perm_ext_iff_of_nodup horder.nodup (nodup_positioned views)]
  exact fun v => ⟨horder.mem v, mem_schedule concurrent hanswers hn⟩

end Gathering

end WorkspaceWatch
