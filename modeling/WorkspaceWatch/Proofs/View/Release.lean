import Mathlib.Data.List.Count
import Mathlib.Data.List.Perm.Subperm
import Mathlib.Data.List.TakeWhile
import WorkspaceWatch.Proofs.View.Schedule
import WorkspaceWatch.View.Aggregator

/-!
# Every snapshot is released once

A call holds the guards of the views that have answered, wherever they stand at that moment, and
lets go of all of them before it is over. So the positions that are released are the positions that
were acquired, in another order (`Gathering.perm_held`), and each of them is released once.

Guards become known to the counters only when every view has answered. From then on acquisitions
and releases are counted in equal number; before, nothing is counted at all.

`Call.Settles` collects what is promised of a call, and `Aggregator.settles_conclude` proves it for
every order in which views may answer.
-/

namespace WorkspaceWatch

variable {α β : Type}

/-! ### Counting -/

namespace Tally

theorem foldl_record_viewSkipped (n : Nat) (t : Tally) :
    (List.replicate n Occurrence.viewSkipped).foldl Tally.record t =
      { t with viewsSkipped := t.viewsSkipped + .ofNat n } := by
  induction n generalizing t with
  | zero => simp
  | succ n ih =>
    rw [List.replicate_succ, List.foldl_cons, ih, record]
    simp only [Nat.add_comm n 1, UInt64.ofNat_add, UInt64.add_assoc]
    rfl

theorem foldl_record_snapshotAcquired (n : Nat) (t : Tally) :
    (List.replicate n Occurrence.snapshotAcquired).foldl Tally.record t =
      { t with snapshotsAcquired := t.snapshotsAcquired + .ofNat n } := by
  induction n generalizing t with
  | zero => simp
  | succ n ih =>
    rw [List.replicate_succ, List.foldl_cons, ih, record]
    simp only [Nat.add_comm n 1, UInt64.ofNat_add, UInt64.add_assoc]
    rfl

end Tally

namespace Gathering

variable {views : List (View α)} {order : List (Nat × View α)}

/-! ### What is held -/

/-- A guard that a view answers with is fresh: neither released nor known to the counters. -/
theorem fresh_of_guarded {v : Nat × View α} {g : Nat × Guard α} (h : guarded v = some g) :
    g.1 = v.1 ∧ g.2.isReleased = false ∧ g.2.isTracked = false := by
  obtain ⟨i, v⟩ := v
  unfold guarded View.guard? at h
  cases hanswer : v.answer with
  | snapshot a =>
    simp only [hanswer, Option.map_some, Option.some.injEq] at h
    subst h
    exact ⟨rfl, rfl, rfl⟩
  | failure | panic | never => simp [hanswer] at h

theorem AnsweringOrder.of_sublist {order' : List (Nat × View α)} (h : AnsweringOrder views order)
    (hsub : order'.Sublist order) : AnsweringOrder views order' :=
  ⟨h.nodup.sublist hsub, fun v hv => h.mem v (hsub.mem hv), fun v hv => h.answers v (hsub.mem hv)⟩

theorem AnsweringOrder.answered (h : AnsweringOrder views order) :
    AnsweringOrder views (answered order) :=
  h.of_sublist (List.takeWhile_sublist _)

/-- Taken in view order, the views that have answered are the same. -/
private theorem perm_filter_positioned (h : AnsweringOrder views order) :
    ((positioned views).filter fun v => order.any fun w => w.1 = v.1).Perm order := by
  rw [List.perm_ext_iff_of_nodup ((nodup_positioned views).filter _) h.nodup]
  intro v
  simp only [List.mem_filter, List.any_eq_true, decide_eq_true_eq]
  constructor
  · rintro ⟨hv, w, hw, heq⟩
    rwa [← eq_of_mem_positioned (h.mem w hw) hv heq]
  · intro hv
    exact ⟨h.mem v hv, v, hv, rfl⟩

private theorem find?_positioned {v : Nat × View α} (hv : v ∈ positioned views) :
    ((positioned views).find? fun w => w.1 = v.1) = some v := by
  cases hfind : (positioned views).find? fun w => w.1 = v.1 with
  | none => simpa using List.find?_eq_none.mp hfind v hv
  | some w =>
    have hw := List.find?_some hfind
    rw [eq_of_mem_positioned (List.mem_of_find?_eq_some hfind) hv (by simpa using hw)]

/-- Views are found by their positions. -/
theorem filterMap_find?_positioned (h : ∀ v ∈ order, v ∈ positioned views) :
    (order.map Prod.fst).filterMap (fun i => (positioned views).find? fun v => v.1 = i) =
      order := by
  rw [List.filterMap_map]
  calc order.filterMap _ = order.filterMap some :=
        List.filterMap_congr fun v hv => find?_positioned (h v hv)
    _ = order := List.filterMap_some

/-- In the order of a crowd, the views that have answered are the same. -/
private theorem perm_crowdOrder (h : AnsweringOrder views order) :
    (crowdOrder order (positioned views)).Perm order := by
  have hperm := (Lineup.perm_toList_ofList (order.map Prod.fst)).filterMap
    fun i => (positioned views).find? fun v => v.1 = i
  rwa [filterMap_find?_positioned h.mem] at hperm

/-- The guards that are held are those that were acquired. -/
theorem perm_held (crowd : Bool) (h : AnsweringOrder views order) :
    (inOrder crowd views order).held.Perm ((answered order).filterMap guarded) := by
  rw [inOrder]
  dsimp only
  refine List.Perm.filterMap _ ?_
  split
  · exact perm_crowdOrder h.answered
  · exact perm_filter_positioned h.answered

/-- The guards that are held are fresh. -/
theorem fresh_of_held {crowd : Bool} (h : AnsweringOrder views order) {g : Nat × Guard α}
    (hg : g ∈ (inOrder crowd views order).held) :
    g.2.isReleased = false ∧ g.2.isTracked = false := by
  obtain ⟨v, -, hv⟩ := List.mem_filterMap.mp ((perm_held crowd h).mem_iff.mp hg)
  exact (fresh_of_guarded hv).2

/-- The positions at which guards are held are those at which guards were acquired. -/
theorem perm_positions (crowd : Bool) (h : AnsweringOrder views order) :
    ((inOrder crowd views order).held.map Prod.fst).Perm
      (((answered order).filterMap guarded).map Prod.fst) :=
  (perm_held crowd h).map Prod.fst

theorem mem_positions_iff {i : Nat} :
    i ∈ ((answered order).filterMap guarded).map Prod.fst ↔
      ∃ v, (i, v) ∈ answered order ∧ v.guard?.isSome = true := by
  simp only [List.mem_map, List.mem_filterMap]
  constructor
  · rintro ⟨g, ⟨⟨j, v⟩, hv, hg⟩, rfl⟩
    obtain ⟨hfst, -⟩ := fresh_of_guarded hg
    obtain rfl : g.1 = j := hfst
    refine ⟨v, hv, ?_⟩
    unfold guarded at hg
    cases hguard : v.guard? <;> simp [hguard] at hg ⊢
  · rintro ⟨v, hv, hsome⟩
    obtain ⟨g, hg⟩ := Option.isSome_iff_exists.mp hsome
    exact ⟨(i, g), ⟨(i, v), hv, by simp [guarded, hg]⟩, rfl⟩

/-- No position is acquired twice. -/
theorem nodup_positions (h : AnsweringOrder views order) :
    (((answered order).filterMap guarded).map Prod.fst).Nodup := by
  have hfst : ((answered order).map Prod.fst).Nodup := by
    refine List.Nodup.map_on (fun v hv w hw heq => ?_) h.answered.nodup
    exact eq_of_mem_positioned (h.answered.mem v hv) (h.answered.mem w hw) heq
  rw [List.Nodup, List.pairwise_map] at hfst ⊢
  refine hfst.filterMap guarded fun v w hne g hg g' hg' => ?_
  rw [(fresh_of_guarded hg).1, (fresh_of_guarded hg').1]
  exact hne

/-! ### When every view has answered -/

theorem panic?_of_complete {crowd : Bool} (hend : (inOrder crowd views order).ending = .complete) :
    (∀ v ∈ order, v.2.panic? = none) ∧ order.length = views.length := by
  unfold inOrder at hend
  dsimp only at hend
  split at hend
  · cases hend
  · next hnone =>
    split at hend
    · next hlength => exact ⟨List.findSome?_eq_none_iff.mp hnone, hlength⟩
    · cases hend

/-- If every view has answered, none has been left out. -/
theorem perm_of_complete {crowd : Bool} (h : AnsweringOrder views order)
    (hend : (inOrder crowd views order).ending = .complete) :
    answered order = order ∧ order.Perm (positioned views) := by
  obtain ⟨hpanic, hlength⟩ := panic?_of_complete hend
  refine ⟨List.takeWhile_eq_self_iff.mpr fun v hv => by simp [hpanic v hv], ?_⟩
  refine (List.subperm_of_subset h.nodup h.mem).perm_of_length_le ?_
  rw [length_positioned, hlength]

private theorem length_held (crowd : Bool) (h : AnsweringOrder views order) :
    (inOrder crowd views order).held.length =
      (answered order).countP fun v => v.2.guard?.isSome := by
  rw [(perm_held crowd h).length_eq, List.length_filterMap_eq_countP]
  simp [guarded]

/-- If every view has answered, each of them is held or has failed. -/
theorem length_sub_held {crowd : Bool} (h : AnsweringOrder views order)
    (hend : (inOrder crowd views order).ending = .complete) :
    views.length - (inOrder crowd views order).held.length = views.countP View.fails := by
  obtain ⟨hanswered, hperm⟩ := perm_of_complete h hend
  have hpanic := (panic?_of_complete hend).1
  have hfails : order.countP (fun v => v.2.guard?.isSome) =
      order.countP fun v => !v.2.fails := by
    refine List.countP_congr fun v hv => ?_
    have hanswers := h.answers v hv
    have hnone := hpanic v hv
    unfold View.Answers at hanswers
    unfold View.panic? at hnone
    unfold View.guard? View.fails
    cases hanswer : v.2.answer <;> simp_all
  have hviews : ∀ p : View α → Bool, order.countP (fun v => p v.2) = views.countP p := fun p => by
    rw [hperm.countP_eq]
    conv_rhs => rw [← map_snd_positioned views, List.countP_map]
    rfl
  rw [length_held crowd h, hanswered, hfails, hviews fun v => !v.fails]
  have hsum := List.length_eq_countP_add_countP View.fails (l := views)
  simp only [Bool.not_eq_true, Bool.decide_eq_false] at hsum
  omega

end Gathering

/-! ### Letting go -/

namespace Aggregator

/-- Fresh guards are all released when they are let go. Their release is counted if and only if the
counters know of them. -/
theorem releaseAll_of_unreleased {held : List (Nat × Guard α)} {tracked : Bool} (t : Tally)
    (h : ∀ g ∈ held, g.2.isReleased = false ∧ g.2.isTracked = tracked) :
    releaseAll held t =
      (held.map fun g => .released g.1,
        if tracked then { t with snapshotsReleased := t.snapshotsReleased + .ofNat held.length }
        else t) := by
  induction held generalizing t with
  | nil => cases tracked <;> simp [releaseAll]
  | cons g held ih =>
    obtain ⟨i, g⟩ := g
    obtain ⟨hreleased, htracked⟩ := h (i, g) List.mem_cons_self
    have ih := fun t => ih t fun g hg => h g (List.mem_cons_of_mem _ hg)
    simp only at hreleased htracked
    cases tracked with
    | false => simp [releaseAll, Guard.release, hreleased, htracked, ih]
    | true =>
      simp only [releaseAll, Guard.release, hreleased, htracked, ih, Tally.record, Bool.not_false,
        if_true, List.map_cons, List.length_cons, Prod.mk.injEq, true_and, Tally.mk.injEq]
      rw [Nat.add_comm held.length 1, UInt64.ofNat_add, UInt64.add_assoc]
      rfl

theorem count_eq (held : List (Nat × Guard α)) (views : Nat) (t : Tally) :
    count held views t =
      { t with
        viewsSkipped := t.viewsSkipped + .ofNat (views - held.length)
        snapshotsAcquired := t.snapshotsAcquired + .ofNat held.length } := by
  rw [count, Tally.foldl_record_viewSkipped, Tally.foldl_record_snapshotAcquired]

/-- What is run on held snapshots does nothing to them but run queries. -/
def OnlyAsks (body : List (Nat × Guard α) → Outcome β × List ViewEvent) : Prop :=
  ∀ held, ∀ e ∈ (body held).2, ∃ positions, e = .queried positions

theorem onlyAsks_askTogether (query : List (Guard α) → Answer β) :
    OnlyAsks (askTogether query) := by
  intro held e he
  exact ⟨_, List.mem_singleton.mp he⟩

private theorem queried_of_mem_askEach {query : Guard α → Answer β} {held : List (Nat × Guard α)}
    {e : ViewEvent} (he : e ∈ (askEach query held).1) : ∃ positions, e = .queried positions := by
  induction held with
  | nil => cases he
  | cons g held ih =>
    obtain ⟨i, g⟩ := g
    rw [askEach] at he
    split at he
    · exact ⟨_, List.mem_singleton.mp he⟩
    · rcases List.mem_cons.mp he with rfl | he
      · exact ⟨_, rfl⟩
      · exact ih he
    · rcases List.mem_cons.mp he with rfl | he
      · exact ⟨_, rfl⟩
      · exact ih he

/-- A query on each snapshot is run on them in turn, whatever is returned in the end. -/
theorem events_askApart (query : Guard α → Answer β) (held : List (Nat × Guard α)) :
    (askApart query held).2 = (askEach query held).1 := by
  unfold askApart
  split <;> simp_all

theorem onlyAsks_askApart (query : Guard α → Answer β) : OnlyAsks (askApart query) := by
  intro held e he
  rw [events_askApart] at he
  exact queried_of_mem_askEach he

end Aggregator

/-- What is promised of a call on some views that started with the counters `before` and came to the
given end of the acquisition, however it ended as a whole. -/
structure Call.Settles (call : Call β) (before : Tally) (views : List (View α)) (ending : Ending) :
    Prop where
  /-- Every snapshot that was acquired is released, and only once. -/
  once : ∀ i, call.events.count (.released i) = call.events.count (.acquired i) ∧
    call.events.count (.acquired i) ≤ 1
  /-- Nothing happens to snapshots any more once the first of them is released. -/
  atLast : ∃ front back, call.events = front ++ back ∧ (∀ i, .released i ∉ front) ∧
    ∀ e ∈ back, ∃ i, e = .released i
  /-- What is acquired are guards that views have answered with. -/
  acquired : ∀ i, .acquired i ∈ call.events → ∃ v, views[i]? = some v ∧ v.guard?.isSome = true
  /-- If every view has answered, these are all the guards there are. -/
  complete : ending = .complete → ∀ i v, views[i]? = some v → v.guard?.isSome = true →
    .acquired i ∈ call.events
  /-- As many releases are counted as acquisitions. -/
  balanced : ∃ n : Nat,
    call.tally.snapshotsAcquired = before.snapshotsAcquired + .ofNat n ∧
      call.tally.snapshotsReleased = before.snapshotsReleased + .ofNat n
  /-- If every view has answered, those that failed are counted. -/
  skipped : ending = .complete →
    call.tally.viewsSkipped = before.viewsSkipped + .ofNat (views.countP View.fails)
  /-- Otherwise nothing is counted. -/
  untouched : ending ≠ .complete → call.tally = before

/-! ### Whole calls -/

section Events

variable {acquired released : List Nat} {asked : List ViewEvent}

/-- What happens to snapshots in a call: they are acquired, queries are run, they are released. -/
private def history (acquired : List Nat) (asked : List ViewEvent) (released : List Nat) :
    List ViewEvent :=
  acquired.map ViewEvent.acquired ++ asked ++ released.map ViewEvent.released

private theorem count_acquired (hasked : ∀ e ∈ asked, ∃ positions, e = .queried positions)
    (i : Nat) : (history acquired asked released).count (.acquired i) = acquired.count i := by
  have hmiddle : asked.count (.acquired i) = 0 := List.count_eq_zero.mpr fun hmem => by
    obtain ⟨_, h⟩ := hasked _ hmem
    cases h
  have hlast : (released.map ViewEvent.released).count (.acquired i) = 0 :=
    List.count_eq_zero.mpr (by simp)
  rw [history, List.count_append, List.count_append, hmiddle, hlast,
    List.count_map_of_injective _ ViewEvent.acquired fun _ _ => ViewEvent.acquired.inj]
  rfl

private theorem count_released (hasked : ∀ e ∈ asked, ∃ positions, e = .queried positions)
    (i : Nat) : (history acquired asked released).count (.released i) = released.count i := by
  have hfirst : (acquired.map ViewEvent.acquired).count (.released i) = 0 :=
    List.count_eq_zero.mpr (by simp)
  have hmiddle : asked.count (.released i) = 0 := List.count_eq_zero.mpr fun hmem => by
    obtain ⟨_, h⟩ := hasked _ hmem
    cases h
  rw [history, List.count_append, List.count_append, hfirst, hmiddle,
    List.count_map_of_injective _ ViewEvent.released fun _ _ => ViewEvent.released.inj]
  omega

end Events

namespace Gathering

variable {views : List (View α)} {order : List (Nat × View α)}

/-- A call settles if it acquires snapshots, runs queries and lets go of all that is held in the
end, and if it counts what it should. -/
private theorem settles_of_history {crowd : Bool} {call : Call β} {before : Tally}
    (h : AnsweringOrder views order) (asked : List ViewEvent)
    (hasked : ∀ e ∈ asked, ∃ positions, e = .queried positions)
    (hevents : call.events = (inOrder crowd views order).events ++ asked ++
      (inOrder crowd views order).held.map fun g => .released g.1)
    (hbalanced : ∃ n : Nat,
      call.tally.snapshotsAcquired = before.snapshotsAcquired + .ofNat n ∧
        call.tally.snapshotsReleased = before.snapshotsReleased + .ofNat n)
    (hskipped : (inOrder crowd views order).ending = .complete →
      call.tally.viewsSkipped = before.viewsSkipped + .ofNat (views.countP View.fails))
    (huntouched : (inOrder crowd views order).ending ≠ .complete → call.tally = before) :
    call.Settles before views (inOrder crowd views order).ending := by
  have hhistory : call.events = history (((answered order).filterMap guarded).map Prod.fst) asked
      ((inOrder crowd views order).held.map Prod.fst) := by
    rw [hevents]
    simp [history, inOrder, Function.comp_def]
  have hmem : ∀ i, .acquired i ∈ call.events ↔
      i ∈ ((answered order).filterMap guarded).map Prod.fst := fun i => by
    rw [← List.count_pos_iff, hhistory, count_acquired hasked, List.count_pos_iff]
  refine ⟨fun i => ?_, ⟨_, _, hhistory, fun i hi => ?_, fun e he => ?_⟩, fun i hi => ?_,
    fun hend i v hv hguard => ?_, hbalanced, hskipped, huntouched⟩
  · rw [hhistory, count_acquired hasked, count_released hasked, (perm_positions crowd h).count_eq]
    exact ⟨rfl, List.nodup_iff_count_le_one.mp (nodup_positions h) i⟩
  · rcases List.mem_append.mp hi with hi | hi
    · simp at hi
    · obtain ⟨_, hi⟩ := hasked _ hi
      cases hi
  · obtain ⟨i, -, rfl⟩ := List.mem_map.mp he
    exact ⟨i, rfl⟩
  · obtain ⟨v, hv, hguard⟩ := mem_positions_iff.mp ((hmem i).mp hi)
    exact ⟨v, mem_positioned.mp (h.answered.mem _ hv), hguard⟩
  · obtain ⟨hanswered, hperm⟩ := perm_of_complete h hend
    refine (hmem i).mpr (mem_positions_iff.mpr ⟨v, ?_, hguard⟩)
    rw [hanswered, hperm.mem_iff]
    exact mem_positioned.mpr hv

end Gathering

namespace Aggregator

open Gathering

variable {views : List (View α)} {order : List (Nat × View α)}

/-- A call that does not get all answers lets go of what it holds and counts nothing. -/
theorem conclude_of_incomplete (a : Aggregator) (n : Nat) {g : Gathering α}
    (body : List (Nat × Guard α) → Outcome β × List ViewEvent)
    (hfresh : ∀ h ∈ g.held, h.2.isReleased = false ∧ h.2.isTracked = false)
    (hend : g.ending ≠ .complete) :
    (a.conclude n g body).events = g.events ++ g.held.map (fun h => .released h.1) ∧
      (a.conclude n g body).tally = a.tally := by
  have hlet := releaseAll_of_unreleased a.tally hfresh
  cases hending : g.ending with
  | complete => exact absurd hending hend
  | panicked message => simp [conclude, hending, hlet]
  | dropped => simp [conclude, hending, hlet]

/-- What a call runs on the snapshots that are held when every view has answered. -/
def asked (g : Gathering α) (body : List (Nat × Guard α) → Outcome β × List ViewEvent) :
    List ViewEvent :=
  if g.held.isEmpty then [] else (body (g.held.map fun h => (h.1, h.2.track))).2

/-- A call that gets all answers counts each of them, runs what it has to run, lets go of everything
and counts that too. -/
theorem conclude_of_complete (a : Aggregator) (n : Nat) {g : Gathering α}
    (body : List (Nat × Guard α) → Outcome β × List ViewEvent)
    (hfresh : ∀ h ∈ g.held, h.2.isReleased = false ∧ h.2.isTracked = false)
    (hend : g.ending = .complete) :
    (a.conclude n g body).events =
        g.events ++ asked g body ++ g.held.map (fun h => .released h.1) ∧
      (a.conclude n g body).tally =
        { a.tally with
          viewsSkipped := a.tally.viewsSkipped + .ofNat (n - g.held.length)
          snapshotsAcquired := a.tally.snapshotsAcquired + .ofNat g.held.length
          snapshotsReleased := a.tally.snapshotsReleased + .ofNat g.held.length } := by
  have htracked : ∀ h ∈ g.held.map (fun h => (h.1, h.2.track)),
      h.2.isReleased = false ∧ h.2.isTracked = true := by
    intro h hh
    obtain ⟨g', hg', rfl⟩ := List.mem_map.mp hh
    exact ⟨(hfresh g' hg').1, rfl⟩
  have hlet := fun t => releaseAll_of_unreleased t htracked
  by_cases hempty : g.held = []
  · simp [conclude, hend, asked, hempty, count_eq]
  · simp [conclude, hend, asked, hempty, hlet, count_eq, Function.comp_def]

/-- In whatever order views answer, and wherever that ends, a call settles. -/
theorem settles_conclude (a : Aggregator) (crowd : Bool) (h : AnsweringOrder views order)
    {body : List (Nat × Guard α) → Outcome β × List ViewEvent} (hbody : OnlyAsks body) :
    (a.conclude views.length (inOrder crowd views order) body).Settles a.tally views
      (inOrder crowd views order).ending := by
  have hfresh : ∀ g ∈ (inOrder crowd views order).held,
      g.2.isReleased = false ∧ g.2.isTracked = false := fun _ => fresh_of_held h
  by_cases hend : (inOrder crowd views order).ending = .complete
  · obtain ⟨hevents, htally⟩ := a.conclude_of_complete views.length body hfresh hend
    refine settles_of_history h _ ?_ hevents ⟨(inOrder crowd views order).held.length, ?_⟩ ?_ ?_
    · intro e he
      unfold asked at he
      split at he
      · cases he
      · exact hbody _ e he
    · exact ⟨by rw [htally], by rw [htally]⟩
    · intro _
      rw [htally, length_sub_held h hend]
    · exact absurd hend
  · obtain ⟨hevents, htally⟩ := a.conclude_of_incomplete views.length body hfresh hend
    refine settles_of_history h [] (by simp) (by simpa using hevents) ⟨0, ?_⟩ ?_ ?_
    · simp [htally]
    · exact fun hcomplete => absurd hcomplete hend
    · exact fun _ => htally

/-- How the acquisition of snapshots ends in a call whose caller waits for so many polls. -/
def acquisitionEnding (a : Aggregator) (patience : Nat) (views : List (View α)) : Ending :=
  match patience with
  | 0 => .dropped
  | suspensions + 1 => (gather a.settings.concurrentAcquisition suspensions views).ending

/-- A call in which nothing happens settles, if there are no views or not all of them answer. -/
private theorem settles_of_idle {call : Call β} {before : Tally} {views : List (View α)}
    {ending : Ending} (hevents : call.events = []) (htally : call.tally = before)
    (hviews : ending = .complete → views = []) : call.Settles before views ending where
  once := by simp [hevents]
  atLast := ⟨[], [], by simp [hevents]⟩
  acquired := by simp [hevents]
  complete := fun hend i v hv => by
    rw [hviews hend] at hv
    cases hv
  balanced := ⟨0, by simp [htally]⟩
  skipped := fun hend => by simp [htally, hviews hend]
  untouched := fun _ => htally

private theorem settles_run (a : Aggregator) (patience : Nat) (views : List (View α))
    {body : List (Nat × Guard α) → Outcome β × List ViewEvent} (hbody : OnlyAsks body) :
    (a.run patience views body).Settles a.tally views (a.acquisitionEnding patience views) := by
  cases patience with
  | zero => exact settles_of_idle rfl rfl fun hend => by cases hend
  | succ suspensions =>
    rw [run]
    split
    · next hempty => exact settles_of_idle rfl rfl fun _ => List.isEmpty_iff.mp hempty
    · exact a.settles_conclude _ (answeringOrder_schedule _ _ _) hbody

/-- **Guaranteed release.** Both kinds of call settle, whatever views answer and when, whatever the
query does and however long the caller waits; and they would in any other order of answers. -/
theorem settles_calls (a : Aggregator) (views : List (View α)) :
    (∀ patience (query : List (Guard α) → Answer β),
      (a.runAcross patience views query).Settles a.tally views
        (a.acquisitionEnding patience views)) ∧
    (∀ patience (query : Guard α → Answer β),
      (a.runPerView patience views query).Settles a.tally views
        (a.acquisitionEnding patience views)) ∧
    ∀ crowd order, AnsweringOrder views order →
      (∀ query : List (Guard α) → Answer β,
        (a.conclude views.length (inOrder crowd views order) (askTogether query)).Settles a.tally
          views (inOrder crowd views order).ending) ∧
      ∀ query : Guard α → Answer β,
        (a.conclude views.length (inOrder crowd views order) (askApart query)).Settles a.tally
          views (inOrder crowd views order).ending := by
  refine ⟨fun patience query => a.settles_run patience views (onlyAsks_askTogether query),
    fun patience query => a.settles_run patience views (onlyAsks_askApart query),
    fun crowd order h => ⟨fun query => ?_, fun query => ?_⟩⟩
  · exact a.settles_conclude crowd h (onlyAsks_askTogether query)
  · exact a.settles_conclude crowd h (onlyAsks_askApart query)

end Aggregator

end WorkspaceWatch
