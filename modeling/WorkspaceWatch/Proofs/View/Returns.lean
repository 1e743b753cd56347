import WorkspaceWatch.Proofs.View.Agreement

/-!
# What a call returns

A call whose views all complete, for a caller who waits long enough, is told by the snapshots that
the views answer with, in view order (`Gathering.usable`); how the views were asked, and in what
order they have answered, is forgotten by then. Without views and without snapshots there is a
failure of its own, and no query is run.

* One query on all snapshots is run once, and its outcome is that of the call (`Call.AsksOnce`).
* A query on each snapshot is run once for each, in view order, up to a panic. The call returns the
  values of those that succeed or, if none does, the failure of the first (`Call.AsksEach`).

A view that fails is left out, and that is all: a call on other views returns the same if the views
that do not fail are the same and in the same order (`Aggregator.returns_calls`).
-/

namespace WorkspaceWatch

variable {α β : Type}

/-! ### Answers of queries -/

namespace Answer

/-- The value of a query that succeeds. -/
def value? : Answer β → Option β
  | .value b => some b
  | _ => none

/-- The failure of a query that fails. -/
def failure? : Answer β → Option Failure
  | .failure f => some f
  | _ => none

/-- The query comes to an end without a panic. -/
def IsCalm (answer : Answer β) : Prop := ∀ message, answer ≠ .panic message

end Answer

/-- The positions of the snapshots on which a query is run. -/
def ViewEvent.queried? : ViewEvent → Option (List Nat)
  | .queried positions => some positions
  | _ => none

/-- The queries that are run in a call, in order, each as the positions of its snapshots. -/
def Call.queries (call : Call β) : List (List Nat) := call.events.filterMap ViewEvent.queried?

/-! ### Usable views -/

namespace Gathering

/-- The snapshots with which views answer, in view order, as queries get to see them. -/
def usable (views : List (View α)) : List (Guard α) :=
  (views.filterMap View.guard?).map Guard.track

/-- The positions of the views that answer with a snapshot, in order. -/
def usablePositions (views : List (View α)) : List Nat := (snapshots views).map Prod.fst

variable {views views' : List (View α)}

theorem map_snd_snapshots (views : List (View α)) :
    (snapshots views).map Prod.snd = views.filterMap View.guard? := by
  have hview : ∀ v : Nat × View α, (guarded v).map Prod.snd = v.2.guard? := fun v => by
    rw [guarded, Option.map_map]
    exact Option.map_id'
  calc (snapshots views).map Prod.snd = (positioned views).filterMap fun v => v.2.guard? := by
        simp only [snapshots, List.map_filterMap, hview]
    _ = ((positioned views).map Prod.snd).filterMap View.guard? := by
        rw [List.filterMap_map]
        rfl
    _ = views.filterMap View.guard? := by rw [map_snd_positioned]

/-- What queries get to see of the snapshots that are held. -/
theorem map_snd_track (views : List (View α)) :
    ((snapshots views).map fun h => (h.1, h.2.track)).map Prod.snd = usable views := by
  rw [usable, ← map_snd_snapshots, List.map_map, List.map_map]
  rfl

theorem map_fst_track (views : List (View α)) :
    ((snapshots views).map fun h => (h.1, h.2.track)).map Prod.fst = usablePositions views := by
  rw [usablePositions, List.map_map]
  rfl

/-- A view that completes answers with a snapshot or fails. -/
theorem guard?_eq_none_iff {v : View α} (h : v.Completes) : v.guard? = none ↔ v.fails = true := by
  obtain ⟨hanswers, hpanic⟩ := h
  unfold View.Answers at hanswers
  unfold View.panic? at hpanic
  unfold View.guard? View.fails
  cases hanswer : v.answer <;> simp_all

/-- Nothing is usable exactly if all views fail. -/
theorem usable_eq_nil_iff (hcompletes : ∀ v ∈ views, v.Completes) :
    usable views = [] ↔ ∀ v ∈ views, v.fails = true := by
  rw [usable, List.map_eq_nil_iff, List.filterMap_eq_nil_iff]
  exact forall₂_congr fun v hv => guard?_eq_none_iff (hcompletes v hv)

theorem isEmpty_snapshots (views : List (View α)) :
    (snapshots views).isEmpty = (usable views).isEmpty := by
  rw [usable, ← map_snd_snapshots, List.isEmpty_map, List.isEmpty_map]

/-- Views that fail contribute nothing. -/
theorem usable_filter (hcompletes : ∀ v ∈ views, v.Completes) :
    usable (views.filter fun v => !v.fails) = usable views := by
  have hview : ∀ v ∈ views, (if (!v.fails) = true then v.guard? else none) = v.guard? := by
    intro v hv
    split
    · rfl
    · next hfails =>
      exact ((guard?_eq_none_iff (hcompletes v hv)).mpr (by simpa using hfails)).symm
  rw [usable, usable, List.filterMap_filter, List.filterMap_congr hview]

end Gathering

open Gathering

/-! ### What is promised of calls -/

/-- A call on some views that comes to its end needs snapshots. -/
structure Call.NeedsSnapshots (views : List (View α)) (call : Call β) : Prop where
  /-- Without views, nothing happens. -/
  idle : views = [] → call.outcome = .returned (.error .noActiveViews) ∧ call.events = []
  /-- If all views fail, no query is run. -/
  unusable : views ≠ [] → (∀ v ∈ views, v.fails = true) →
    call.outcome = .returned (.error (.noUsableSnapshots views.length)) ∧ call.queries = []

/-- The call runs one query on all snapshots and returns what comes of it. -/
structure Call.AsksOnce (views : List (View α)) (query : List (Guard α) → Answer β)
    (call : Call β) : Prop extends call.NeedsSnapshots views where
  asked : (∃ v ∈ views, v.fails = false) →
    call.outcome = (query (usable views)).outcome ∧ call.queries = [usablePositions views]

/-- The call runs a query on each snapshot and collects what succeeds. -/
structure Call.AsksEach (views : List (View α)) (query : Guard α → Answer β)
    (call : Call (List β)) : Prop extends call.NeedsSnapshots views where
  /-- If no query panics, each snapshot is shown to one of them, in view order. -/
  asked : (∀ g ∈ usable views, (query g).IsCalm) →
    call.queries = (usablePositions views).map fun i => [i]
  /-- If some query succeeds, the values are returned in view order. -/
  values : (∀ g ∈ usable views, (query g).IsCalm) →
    (∃ g ∈ usable views, ∃ b, query g = .value b) →
      call.outcome = .returned (.ok ((usable views).filterMap fun g => (query g).value?))
  /-- If all queries fail, the first failure is returned. -/
  failed : ∀ g rest f, usable views = g :: rest → query g = .failure f →
    (∀ g' ∈ rest, ∃ f', query g' = .failure f') → call.outcome = .returned (.error f)
  /-- A panic ends the call, and no other query is run. -/
  panicked : ∀ before g rest message, usable views = before ++ g :: rest →
    (∀ g' ∈ before, (query g').IsCalm) → query g = .panic message →
      call.outcome = .panicked message ∧
        call.queries = ((usablePositions views).take (before.length + 1)).map fun i => [i]

namespace Aggregator

/-! ### Running queries -/

variable {views : List (View α)} {held : List (Nat × Guard α)}

/-- If no query panics, all are run, and what comes of them is listed in order. -/
theorem askEach_of_isCalm (query : Guard α → Answer β) (held : List (Nat × Guard α))
    (hcalm : ∀ g ∈ held.map Prod.snd, (query g).IsCalm) :
    askEach query held = (held.map fun g => .queried [g.1],
      .ok ((held.map Prod.snd).filterMap fun g => (query g).value?,
        (held.map Prod.snd).filterMap fun g => (query g).failure?)) := by
  induction held with
  | nil => rfl
  | cons g held ih =>
    obtain ⟨i, g⟩ := g
    rw [List.map_cons, List.forall_mem_cons] at hcalm
    rw [askEach, ih hcalm.2]
    cases hanswer : query g with
    | panic message => exact absurd hanswer (hcalm.1 message)
    | value b => simp [Except.map, hanswer, Answer.value?, Answer.failure?]
    | failure f => simp [Except.map, hanswer, Answer.value?, Answer.failure?]

/-- The first panic is the end. -/
theorem askEach_of_panic (query : Guard α → Answer β) (before : List (Nat × Guard α))
    (h : Nat × Guard α) (rest : List (Nat × Guard α)) {message : String}
    (hcalm : ∀ g ∈ before.map Prod.snd, (query g).IsCalm) (hpanic : query h.2 = .panic message) :
    askEach query (before ++ h :: rest) =
      ((before ++ [h]).map fun g => .queried [g.1], .error message) := by
  induction before with
  | nil => simp [askEach, hpanic]
  | cons g before ih =>
    obtain ⟨i, g⟩ := g
    rw [List.map_cons, List.forall_mem_cons] at hcalm
    rw [List.cons_append, askEach, ih hcalm.2]
    cases hanswer : query g with
    | panic message => exact absurd hanswer (hcalm.1 message)
    | value b | failure f => simp [Except.map]

/-! ### Calls to their end -/

/-- The queries of a call are those that are run on the snapshots. -/
private theorem queries_afterwards (body : List (Nat × Guard α) → Outcome β × List ViewEvent)
    (order : List (Nat × View α)) (held : List (Nat × Guard α)) :
    (((order.filterMap guarded).map fun g => ViewEvent.acquired g.1) ++
      afterwards body held).filterMap ViewEvent.queried? =
      if held.isEmpty then []
      else (body (held.map fun h => (h.1, h.2.track))).2.filterMap ViewEvent.queried? := by
  have hacquired : ((order.filterMap guarded).map fun g => ViewEvent.acquired g.1).filterMap
      ViewEvent.queried? = [] := by
    simp [List.filterMap_map, ViewEvent.queried?]
  have hreleased : (held.map fun h => ViewEvent.released h.1).filterMap ViewEvent.queried? = [] := by
    simp [List.filterMap_map, ViewEvent.queried?]
  rw [List.filterMap_append, hacquired, List.nil_append, afterwards, List.filterMap_append,
    hreleased, List.append_nil, asked]
  split <;> rfl

/-- What is returned in the end does not depend on the positions of the snapshots. -/
private theorem outcome_askApart_congr (query : Guard α → Answer β)
    {held held' : List (Nat × Guard α)} (h : held.map Prod.snd = held'.map Prod.snd) :
    (askApart query held).1 = (askApart query held').1 := by
  have heach : (askEach query held).2 = (askEach query held').2 := by
    induction held generalizing held' with
    | nil =>
      rw [List.map_eq_nil_iff.mp h.symm]
    | cons g held ih =>
      obtain ⟨g', held', rfl, hfirst, hrest⟩ := List.map_eq_cons_iff.mp h.symm
      obtain ⟨i, g⟩ := g
      obtain ⟨j, g'⟩ := g'
      obtain rfl : g' = g := hfirst
      rw [askEach, askEach]
      cases query g' with
      | panic message => rfl
      | value b | failure f => exact congrArg (Except.map _) (ih hrest.symm)
  rw [askApart, askApart]
  generalize askEach query held = asked at heach ⊢
  generalize askEach query held' = asked' at heach ⊢
  obtain ⟨events, result⟩ := asked
  obtain ⟨events', result'⟩ := asked'
  obtain rfl : result = result' := heach
  rcases result with message | ⟨_ | ⟨b, values⟩, _ | ⟨f, failures⟩⟩ <;> rfl

/-- The queries on single snapshots, as the positions of these. -/
private theorem filterMap_queried? (held : List (Nat × Guard α)) :
    (held.map fun g => ViewEvent.queried [g.1]).filterMap ViewEvent.queried? =
      (held.map Prod.fst).map fun i => [i] := by
  rw [List.filterMap_map, List.map_map, ← List.filterMap_eq_map]
  rfl

section Patient

variable {patience : Nat} (a : Aggregator)
  (hcompletes : ∀ v ∈ views, v.Completes) (hpatience : turnCount views < patience)
include hcompletes hpatience

/-- What a caller who waits long enough gets, whichever way the views are asked. -/
theorem run_of_completes (body : List (Nat × Guard α) → Outcome β × List ViewEvent)
    (hne : views ≠ []) :
    (a.run patience views body).outcome =
        (if (usable views).isEmpty then .returned (.error (.noUsableSnapshots views.length))
        else (body ((snapshots views).map fun h => (h.1, h.2.track))).1) ∧
      (a.run patience views body).queries =
        if (usable views).isEmpty then []
        else (body ((snapshots views).map fun h => (h.1, h.2.track))).2.filterMap
          ViewEvent.queried? := by
  obtain ⟨crowd, order, horder, hrun⟩ := a.run_of_patient body hne hcompletes hpatience
  rw [hrun, conclude_of_perm a crowd hcompletes horder, ← isEmpty_snapshots]
  exact ⟨rfl, queries_afterwards body order (snapshots views)⟩

/-- If something is usable, what is run on the snapshots decides about the call. -/
theorem run_of_usable (body : List (Nat × Guard α) → Outcome β × List ViewEvent)
    (husable : usable views ≠ []) :
    (a.run patience views body).outcome =
        (body ((snapshots views).map fun h => (h.1, h.2.track))).1 ∧
      (a.run patience views body).queries =
        (body ((snapshots views).map fun h => (h.1, h.2.track))).2.filterMap
          ViewEvent.queried? := by
  have hne : views ≠ [] := by
    rintro rfl
    exact husable rfl
  have hrun := a.run_of_completes hcompletes hpatience body hne
  rwa [List.isEmpty_eq_false_iff.mpr husable, if_neg Bool.false_ne_true,
    if_neg Bool.false_ne_true] at hrun

theorem needsSnapshots_run (body : List (Nat × Guard α) → Outcome β × List ViewEvent) :
    (a.run patience views body).NeedsSnapshots views := by
  constructor
  case idle =>
    rintro rfl
    obtain ⟨n, rfl⟩ := Nat.exists_eq_succ_of_ne_zero (Nat.ne_zero_of_lt hpatience)
    exact ⟨rfl, rfl⟩
  case unusable =>
    intro hne hfail
    have hrun := a.run_of_completes hcompletes hpatience body hne
    rwa [(usable_eq_nil_iff hcompletes).mpr hfail] at hrun

theorem asksOnce_runAcross (query : List (Guard α) → Answer β) :
    (a.runAcross patience views query).AsksOnce views query := by
  refine ⟨a.needsSnapshots_run hcompletes hpatience _, fun ⟨v, hv, hsome⟩ => ?_⟩
  have husable : usable views ≠ [] := by
    intro hnil
    have hfail := (usable_eq_nil_iff hcompletes).mp hnil v hv
    rw [hsome] at hfail
    cases hfail
  have hrun := a.run_of_usable hcompletes hpatience (askTogether query) husable
  rw [askTogether, map_snd_track, map_fst_track] at hrun
  exact hrun

/-- A query on each snapshot that never panics: what it comes to is told by the values and the
failures. -/
private theorem runPerView_of_isCalm (query : Guard α → Answer β) (husable : usable views ≠ [])
    (hcalm : ∀ g ∈ usable views, (query g).IsCalm) :
    ((usable views).filterMap (fun g => (query g).value?) ≠ [] →
      (a.runPerView patience views query).outcome =
        .returned (.ok ((usable views).filterMap fun g => (query g).value?))) ∧
    (∀ f fs, (usable views).filterMap (fun g => (query g).value?) = [] →
      (usable views).filterMap (fun g => (query g).failure?) = f :: fs →
        (a.runPerView patience views query).outcome = .returned (.error f)) ∧
    (a.runPerView patience views query).queries = (usablePositions views).map fun i => [i] := by
  obtain ⟨houtcome, hqueries⟩ := a.run_of_usable hcompletes hpatience (askApart query) husable
  rw [← runPerView] at houtcome hqueries
  have heach := askEach_of_isCalm query _ ((map_snd_track views).symm ▸ hcalm)
  rw [map_snd_track] at heach
  refine ⟨fun hvalues => ?_, fun f fs hvalues hfailures => ?_, ?_⟩
  · rw [houtcome, askApart, heach]
    obtain ⟨b, bs, hbs⟩ := List.exists_cons_of_ne_nil hvalues
    rw [hbs]
  · rw [houtcome, askApart, heach, hvalues, hfailures]
  · rw [hqueries, events_askApart, heach, filterMap_queried?, map_fst_track]

theorem asksEach_runPerView (query : Guard α → Answer β) :
    (a.runPerView patience views query).AsksEach views query := by
  have hneeds : (a.runPerView patience views query).NeedsSnapshots views :=
    a.needsSnapshots_run hcompletes hpatience _
  constructor
  case toNeedsSnapshots => exact hneeds
  case asked =>
    intro hcalm
    by_cases husable : usable views = []
    · have hpositions : usablePositions views = [] := by
        rw [usablePositions, List.map_eq_nil_iff, ← List.isEmpty_iff, isEmpty_snapshots, husable]
        rfl
      rw [hpositions]
      by_cases hne : views = []
      · rw [Call.queries, (hneeds.idle hne).2]
        rfl
      · exact (hneeds.unusable hne ((usable_eq_nil_iff hcompletes).mp husable)).2
    · exact (a.runPerView_of_isCalm hcompletes hpatience query husable hcalm).2.2
  case values =>
    rintro hcalm ⟨g, hg, b, hb⟩
    have hmem : b ∈ (usable views).filterMap fun g => (query g).value? :=
      List.mem_filterMap.mpr ⟨g, hg, by rw [hb]; rfl⟩
    exact (a.runPerView_of_isCalm hcompletes hpatience query (List.ne_nil_of_mem hg) hcalm).1
      (List.ne_nil_of_mem hmem)
  case failed =>
    intro g rest f husable hfirst hrest
    have hfails : ∀ g' ∈ usable views, ∃ f', query g' = .failure f' := by
      rw [husable, List.forall_mem_cons]
      exact ⟨⟨f, hfirst⟩, hrest⟩
    have hcalm : ∀ g' ∈ usable views, (query g').IsCalm := by
      intro g' hg' message hpanic
      obtain ⟨f', hf'⟩ := hfails g' hg'
      rw [hf'] at hpanic
      cases hpanic
    have hvalues : (usable views).filterMap (fun g => (query g).value?) = [] := by
      rw [List.filterMap_eq_nil_iff]
      intro g' hg'
      obtain ⟨f', hf'⟩ := hfails g' hg'
      rw [hf']
      rfl
    have hfailures : (usable views).filterMap (fun g => (query g).failure?) =
        f :: rest.filterMap fun g => (query g).failure? := by
      rw [husable, List.filterMap_cons, hfirst]
      rfl
    exact (a.runPerView_of_isCalm hcompletes hpatience query (by simp [husable]) hcalm).2.1 f _
      hvalues hfailures
  case panicked =>
    intro before g rest message husable hcalm hpanic
    obtain ⟨houtcome, hqueries⟩ :=
      a.run_of_usable hcompletes hpatience (askApart query) (by simp [husable])
    rw [← runPerView] at houtcome hqueries
    -- What is held has the guard that makes the query panic at the same position.
    rw [← map_snd_track, List.map_eq_append_iff] at husable
    obtain ⟨front, back, hheld, rfl, hback⟩ := husable
    obtain ⟨h, back, rfl, rfl, rfl⟩ := List.map_eq_cons_iff.mp hback
    have heach := askEach_of_panic query front h back hcalm hpanic
    rw [hheld, askApart, heach] at houtcome
    rw [hheld, events_askApart, heach, filterMap_queried?] at hqueries
    have hshown : (front ++ h :: back).take (front.length + 1) = front ++ [h] := by
      rw [List.append_cons, List.take_left' (by simp)]
    refine ⟨houtcome, ?_⟩
    rw [hqueries, ← map_fst_track, hheld, List.length_map, ← List.map_take, hshown]

end Patient

/-- **What calls return.** Let all views complete and the caller wait long enough. Then a call for
one query on all snapshots does what `Call.AsksOnce` says, and a call for a query on each of them
what `Call.AsksEach` says. Moreover, if some view does not fail, then calls on any other views of
which those that do not fail are the same, in the same order, return the same. -/
theorem returns_calls (a : Aggregator) (views : List (View α)) (patience : Nat)
    (hcompletes : ∀ v ∈ views, v.Completes) (hpatience : turnCount views < patience) :
    (∀ query : List (Guard α) → Answer β,
      (a.runAcross patience views query).AsksOnce views query) ∧
    (∀ query : Guard α → Answer β, (a.runPerView patience views query).AsksEach views query) ∧
    ((∃ v ∈ views, v.fails = false) → ∀ (a' : Aggregator) (views' : List (View α)) (patience' : Nat),
      (∀ v ∈ views', v.Completes) → turnCount views' < patience' →
      (views'.filter fun v => !v.fails) = (views.filter fun v => !v.fails) →
      (∀ query : List (Guard α) → Answer β,
        (a'.runAcross patience' views' query).outcome =
          (a.runAcross patience views query).outcome) ∧
      ∀ query : Guard α → Answer β,
        (a'.runPerView patience' views' query).outcome =
          (a.runPerView patience views query).outcome) := by
  refine ⟨a.asksOnce_runAcross hcompletes hpatience, a.asksEach_runPerView hcompletes hpatience,
    fun hsome a' views' patience' hcompletes' hpatience' hsame => ?_⟩
  have husable : usable views ≠ [] := fun hnil => by
    obtain ⟨v, hv, hfails⟩ := hsome
    rw [(usable_eq_nil_iff hcompletes).mp hnil v hv] at hfails
    cases hfails
  have hboth : usable views' = usable views := by
    rw [← usable_filter hcompletes, ← usable_filter hcompletes', hsame]
  have husable' : usable views' ≠ [] := hboth ▸ husable
  refine ⟨fun query => ?_, fun query => ?_⟩
  · have hrun := a.run_of_usable hcompletes hpatience (askTogether query) husable
    have hrun' := a'.run_of_usable hcompletes' hpatience' (askTogether query) husable'
    rw [askTogether, map_snd_track] at hrun hrun'
    rw [runAcross, runAcross, hrun.1, hrun'.1, hboth]
  · have hrun := a.run_of_usable hcompletes hpatience (askApart query) husable
    have hrun' := a'.run_of_usable hcompletes' hpatience' (askApart query) husable'
    rw [runPerView, runPerView, hrun.1, hrun'.1]
    refine outcome_askApart_congr query ?_
    rw [map_snd_track, map_snd_track, hboth]

/-- A query that succeeds on snapshots from `least` on and gives the name of the view. -/
def nameQuery (least : Nat) (g : Guard Nat) : Answer String :=
  if least ≤ g.snapshot then .value g.view else .failure (.query (g.view ++ " is small"))

/-- The second of the three views fails. Queries are run on the snapshots of the other two: one of
them succeeds, or both fail, and then it is the first failure that counts. Without the second view
it would be the same. -/
theorem returns_calls_late :
    ((acquiring {} true).runPerView 9 lateViews (nameQuery 2)).outcome = .returned (.ok ["c"]) ∧
      ((acquiring {} true).runPerView 9 lateViews (nameQuery 2)).queries = [[0], [2]] ∧
      ((acquiring {} true).runPerView 9 lateViews (nameQuery 4)).outcome =
        .returned (.error (.query "a is small")) ∧
      ((acquiring {} false).runAcross 9 (lateViews.eraseIdx 1) sumQuery).outcome =
        ((acquiring {} true).runAcross 9 lateViews sumQuery).outcome := by
  have hcompletes : ∀ v ∈ lateViews, v.Completes := by
    simp [lateViews, View.Completes, View.Answers, View.panic?]
  have hcompletes' : ∀ v ∈ lateViews.eraseIdx 1, v.Completes := fun v hv =>
    hcompletes v (List.mem_of_mem_eraseIdx hv)
  have hcalm : ∀ g, (nameQuery 2 g).IsCalm := by
    intro g message
    unfold nameQuery
    split <;> intro heq <;> cases heq
  obtain ⟨-, heach, -⟩ := returns_calls (β := String) (acquiring {} true) lateViews 9 hcompletes
    (by decide)
  obtain ⟨-, -, hsame⟩ := returns_calls (β := Nat) (acquiring {} true) lateViews 9 hcompletes
    (by decide)
  refine ⟨?_, (heach (nameQuery 2)).asked fun g _ => hcalm g, ?_, ?_⟩
  · exact (heach (nameQuery 2)).values (fun g _ => hcalm g)
      ⟨{ view := "c", snapshot := 3, isTracked := true }, by decide, "c", rfl⟩
  · exact (heach (nameQuery 4)).failed { view := "a", snapshot := 1, isTracked := true }
      [{ view := "c", snapshot := 3, isTracked := true }] (.query "a is small") rfl rfl
      (by simp [nameQuery])
  · exact (hsame ⟨_, List.mem_cons_self, rfl⟩ (acquiring {} false) (lateViews.eraseIdx 1) 9
      hcompletes' (by decide) rfl).1 sumQuery

end Aggregator

end WorkspaceWatch
