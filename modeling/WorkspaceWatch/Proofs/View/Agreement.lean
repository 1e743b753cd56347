import WorkspaceWatch.Proofs.Results
import WorkspaceWatch.Proofs.View.Lineup
import WorkspaceWatch.Proofs.View.Release

/-!
# Asking all at once and asking in turn agree

Views that answer with a snapshot or a failure *complete*. When all of them do, it makes no
difference in what order they have answered: what is held in the end are the snapshots in view order
(`Gathering.inOrder_of_perm`), and the lineup of a crowd, which is what the answers go through, says
the same (`Gathering.crowdOrder_of_perm`). So all that is left of the order is the order of the
acquisitions.

`Call.Agrees` is what this means for calls, and `Aggregator.agrees_calls` proves it for the way in
which views are asked and for any other order in which they might answer.
-/

namespace WorkspaceWatch

variable {α β : Type}

/-- The view answers with a snapshot or with a failure. -/
def View.Completes (v : View α) : Prop := v.Answers ∧ v.panic? = none

namespace ViewEvent

/-- A snapshot is acquired. -/
def isAcquired : ViewEvent → Bool
  | .acquired _ => true
  | _ => false

/-- The positions of the snapshots that a query is shown. -/
def shown : ViewEvent → List Nat
  | .queried positions => positions
  | _ => []

section Acquired

variable {gs : List (Nat × Guard α)} {rest : List ViewEvent}

theorem filter_isAcquired (hrest : ∀ e ∈ rest, e.isAcquired = false) :
    ((gs.map fun g => acquired g.1) ++ rest).filter isAcquired = gs.map fun g => acquired g.1 := by
  rw [List.filter_append, List.filter_eq_self.mpr, List.filter_eq_nil_iff.mpr, List.append_nil]
  · exact fun e he => Bool.eq_false_iff.mp (hrest e he)
  · exact List.forall_mem_map.mpr fun _ _ => rfl

theorem filter_not_isAcquired (hrest : ∀ e ∈ rest, e.isAcquired = false) :
    ((gs.map fun g => acquired g.1) ++ rest).filter (!·.isAcquired) = rest := by
  rw [List.filter_append, List.filter_eq_nil_iff.mpr, List.filter_eq_self.mpr, List.nil_append]
  · exact fun e he => by rw [hrest e he, Bool.not_false]
  · exact List.forall_mem_map.mpr fun _ _ => Bool.false_ne_true

/-- An acquisition shows nothing to a query. -/
theorem flatMap_shown :
    ((gs.map fun g => acquired g.1) ++ rest).flatMap shown = rest.flatMap shown := by
  simp [List.flatMap_map, shown]

end Acquired

end ViewEvent

namespace Gathering

variable {views : List (View α)} {order : List (Nat × View α)}

/-- The snapshots with which views answer, in view order. -/
def snapshots (views : List (View α)) : List (Nat × Guard α) :=
  (positioned views).filterMap guarded

/-- When all views have answered, the lineup of a crowd has them in view order. -/
theorem crowdOrder_of_perm (horder : order.Perm (positioned views)) :
    crowdOrder order (positioned views) = positioned views := by
  have hall := horder.map Prod.fst
  rw [map_fst_positioned] at hall
  rw [crowdOrder, Lineup.toList_ofList hall, ← map_fst_positioned]
  exact filterMap_find?_positioned fun v hv => hv

/-- When all views have answered and completed, what is held are their snapshots in view order. -/
theorem inOrder_of_perm (crowd : Bool) (hcompletes : ∀ v ∈ views, v.Completes)
    (horder : order.Perm (positioned views)) :
    inOrder crowd views order =
      { ending := .complete
        events := (order.filterMap guarded).map fun g => .acquired g.1
        held := snapshots views } := by
  have hpanic : ∀ v ∈ order, v.2.panic? = none := fun v hv => by
    have hview := List.mem_map_of_mem (f := Prod.snd) (horder.mem_iff.mp hv)
    rw [map_snd_positioned] at hview
    exact (hcompletes _ hview).2
  have hanswered : answered order = order :=
    List.takeWhile_eq_self_iff.mpr fun v hv => by simp [hpanic v hv]
  have hlength : order.length = views.length := horder.length_eq.trans length_positioned
  have hfilter : ((positioned views).filter fun v => order.any fun w => w.1 = v.1) =
      positioned views :=
    List.filter_eq_self.mpr fun v hv => List.any_eq_true.mpr ⟨v, horder.mem_iff.mpr hv, by simp⟩
  simp [inOrder, hanswered, hlength, hfilter, List.findSome?_eq_none_iff.mpr hpanic, snapshots]

end Gathering

open Gathering

/-- The calls are the same but for the order in which snapshots of the views are acquired. -/
structure Call.Agrees (views : List (View α)) (call call' : Call β) : Prop where
  outcome : call.outcome = call'.outcome
  /-- The calls have come to their end. -/
  finished : call.outcome ≠ .dropped
  tally : call.tally = call'.tally
  acquired : (call.events.filter ViewEvent.isAcquired).Perm
    (call'.events.filter ViewEvent.isAcquired)
  /-- What queries are shown and what is released is the same, and in the same order. -/
  events : call.events.filter (!·.isAcquired) = call'.events.filter (!·.isAcquired)
  /-- What queries are shown are the snapshots in view order, up to a query that panics. -/
  shown : call.events.flatMap ViewEvent.shown <+: (snapshots views).map Prod.fst
  /-- If none does, all of them are shown. -/
  all : (∀ message, call.outcome ≠ .panicked message) →
    call.events.flatMap ViewEvent.shown = (snapshots views).map Prod.fst

namespace Aggregator

/-! ### What queries are shown -/

/-- What is run on held snapshots shows them to queries in their order, up to one that panics, and
comes to an end. -/
structure ShowsInOrder (body : List (Nat × Guard α) → Outcome β × List ViewEvent)
    (held : List (Nat × Guard α)) : Prop where
  shown : (body held).2.flatMap ViewEvent.shown <+: held.map Prod.fst
  all : (∀ message, (body held).1 ≠ .panicked message) →
    (body held).2.flatMap ViewEvent.shown = held.map Prod.fst
  finished : (body held).1 ≠ .dropped

theorem showsInOrder_askTogether (query : List (Guard α) → Answer β)
    (held : List (Nat × Guard α)) : ShowsInOrder (askTogether query) held where
  shown := by simp [askTogether, ViewEvent.shown]
  all := fun _ => by simp [askTogether, ViewEvent.shown]
  finished := by
    unfold askTogether
    cases query (held.map Prod.snd) <;> exact nofun

private theorem shown_askEach (query : Guard α → Answer β) (held : List (Nat × Guard α)) :
    (askEach query held).1.flatMap ViewEvent.shown <+: held.map Prod.fst ∧
      ∀ r, (askEach query held).2 = .ok r →
        (askEach query held).1.flatMap ViewEvent.shown = held.map Prod.fst := by
  induction held with
  | nil => exact ⟨List.prefix_rfl, fun _ _ => rfl⟩
  | cons g held ih =>
    obtain ⟨i, g⟩ := g
    obtain ⟨hfirst, hall⟩ := ih
    rw [askEach, List.map_cons]
    cases query g with
    | panic message => exact ⟨by simp [ViewEvent.shown], fun r hr => by cases hr⟩
    | value b | failure f =>
      refine ⟨by simpa [ViewEvent.shown] using hfirst, fun r hr => ?_⟩
      obtain ⟨r', hr', -⟩ := map_eq_ok_iff.mp hr
      simpa [ViewEvent.shown] using hall r' hr'

theorem showsInOrder_askApart (query : Guard α → Answer β) (held : List (Nat × Guard α)) :
    ShowsInOrder (askApart query) held := by
  obtain ⟨hfirst, hall⟩ := shown_askEach query held
  have happart : (askApart query held).1 ≠ .dropped ∧
      ∀ message, (askEach query held).2 = .error message →
        (askApart query held).1 = .panicked message := by
    unfold askApart
    split <;> simp_all
  obtain ⟨hfinished, hpanicked⟩ := happart
  refine ⟨(events_askApart query held) ▸ hfirst, fun hcalm => ?_, hfinished⟩
  rw [events_askApart]
  cases hresult : (askEach query held).2 with
  | error message => exact absurd (hpanicked message hresult) (hcalm message)
  | ok r => exact hall r hresult

/-! ### Calls -/

variable {views : List (View α)} {order order' : List (Nat × View α)}
  {body : List (Nat × Guard α) → Outcome β × List ViewEvent}

/-- What happens in a call after the acquisitions, if the guards `held` are held then. -/
def afterwards (body : List (Nat × Guard α) → Outcome β × List ViewEvent)
    (held : List (Nat × Guard α)) : List ViewEvent :=
  asked ⟨.complete, [], held⟩ body ++ held.map fun h => .released h.1

theorem isAcquired_of_mem_afterwards (hasks : OnlyAsks body) (held : List (Nat × Guard α)) :
    ∀ e ∈ afterwards body held, e.isAcquired = false := by
  intro e he
  rcases List.mem_append.mp he with he | he
  · rw [asked] at he
    split at he
    · cases he
    · obtain ⟨positions, rfl⟩ := hasks _ e he
      rfl
  · obtain ⟨g, -, rfl⟩ := List.mem_map.mp he
    rfl

/-- What is shown to queries is shown in the order in which it is held. -/
theorem shown_afterwards (hshows : ∀ held, ShowsInOrder body held) (held : List (Nat × Guard α)) :
    (afterwards body held).flatMap ViewEvent.shown <+: held.map Prod.fst ∧
      ((held ≠ [] → ∀ message, (body (held.map fun h => (h.1, h.2.track))).1 ≠ .panicked message) →
        (afterwards body held).flatMap ViewEvent.shown = held.map Prod.fst) := by
  have hreleased : (held.map fun h => ViewEvent.released h.1).flatMap ViewEvent.shown = [] := by
    simp [List.flatMap_map, ViewEvent.shown]
  have hfst : (held.map fun h => (h.1, h.2.track)).map Prod.fst = held.map Prod.fst := by
    simp [Function.comp_def]
  obtain ⟨hfirst, hall, -⟩ := hshows (held.map fun h => (h.1, h.2.track))
  rw [hfst] at hfirst hall
  rw [afterwards, List.flatMap_append, hreleased, List.append_nil, asked]
  cases held with
  | nil => exact ⟨List.prefix_rfl, fun _ => rfl⟩
  | cons g held => exact ⟨hfirst, fun hcalm => hall (hcalm (List.cons_ne_nil g held))⟩

theorem outcome_conclude (a : Aggregator) (n : Nat) (events : List ViewEvent)
    (held : List (Nat × Guard α)) :
    (a.conclude n ⟨.complete, events, held⟩ body).outcome =
      if held.isEmpty then .returned (.error (.noUsableSnapshots n))
      else (body (held.map fun h => (h.1, h.2.track))).1 := by
  rw [conclude]
  dsimp only
  rw [List.isEmpty_map]
  split <;> rfl

/-- A call in which all views have answered and completed: of the order in which they have answered
there is left only the order of the acquisitions. -/
theorem conclude_of_perm (a : Aggregator) (crowd : Bool) (hcompletes : ∀ v ∈ views, v.Completes)
    (horder : order.Perm (positioned views)) :
    a.conclude views.length (inOrder crowd views order) body =
      { outcome :=
          if (snapshots views).isEmpty then .returned (.error (.noUsableSnapshots views.length))
          else (body ((snapshots views).map fun h => (h.1, h.2.track))).1
        events := (order.filterMap guarded).map (fun g => .acquired g.1) ++
          afterwards body (snapshots views)
        tally :=
          { a.tally with
            viewsSkipped := a.tally.viewsSkipped + .ofNat (views.length - (snapshots views).length)
            snapshotsAcquired := a.tally.snapshotsAcquired + .ofNat (snapshots views).length
            snapshotsReleased := a.tally.snapshotsReleased + .ofNat (snapshots views).length } } := by
  have hfresh : ∀ g ∈ snapshots views, g.2.isReleased = false ∧ g.2.isTracked = false :=
    fun g hg => by
      obtain ⟨v, -, hv⟩ := List.mem_filterMap.mp hg
      exact (fresh_of_guarded hv).2
  rw [inOrder_of_perm crowd hcompletes horder]
  obtain ⟨hevents, htally⟩ := a.conclude_of_complete views.length body
    (g := ⟨.complete, (order.filterMap guarded).map fun g => .acquired g.1, snapshots views⟩)
    hfresh rfl
  rw [List.append_assoc] at hevents
  exact (Call.mk.injEq ..).mpr ⟨a.outcome_conclude _ _ _, hevents, htally⟩

/-- In whatever orders views that complete have answered, the calls agree. -/
theorem agrees_conclude (a : Aggregator) (crowd crowd' : Bool) (hasks : OnlyAsks body)
    (hshows : ∀ held, ShowsInOrder body held) (hcompletes : ∀ v ∈ views, v.Completes)
    (horder : order.Perm (positioned views)) (horder' : order'.Perm (positioned views)) :
    (a.conclude views.length (inOrder crowd views order) body).Agrees views
      (a.conclude views.length (inOrder crowd' views order') body) := by
  have hafter := isAcquired_of_mem_afterwards hasks (snapshots views)
  obtain ⟨hshown, hall⟩ := shown_afterwards hshows (snapshots views)
  rw [conclude_of_perm a crowd hcompletes horder, conclude_of_perm a crowd' hcompletes horder']
  constructor
  case outcome => rfl
  case tally => rfl
  case finished =>
    dsimp only
    split
    · exact nofun
    · exact (hshows _).finished
  case acquired =>
    rw [ViewEvent.filter_isAcquired hafter, ViewEvent.filter_isAcquired hafter]
    exact ((horder.trans horder'.symm).filterMap guarded).map _
  case events =>
    rw [ViewEvent.filter_not_isAcquired hafter, ViewEvent.filter_not_isAcquired hafter]
  case shown =>
    rw [ViewEvent.flatMap_shown]
    exact hshown
  case all =>
    intro hcalm
    rw [ViewEvent.flatMap_shown]
    refine hall fun hne message => ?_
    have hquiet := hcalm message
    rwa [if_neg (by simpa using hne)] at hquiet

/-- The aggregator, set to ask views all at once or one after the other. -/
def acquiring (a : Aggregator) (concurrent : Bool) : Aggregator :=
  { a with settings := { a.settings with concurrentAcquisition := concurrent } }

/-- A caller who waits long enough gets all answers. -/
theorem run_of_patient (a : Aggregator) {patience : Nat}
    (body : List (Nat × Guard α) → Outcome β × List ViewEvent) (hne : views ≠ [])
    (hcompletes : ∀ v ∈ views, v.Completes) (hpatience : turnCount views < patience) :
    ∃ (crowd : Bool) (order : List (Nat × View α)), order.Perm (positioned views) ∧
      a.run patience views body = a.conclude views.length (inOrder crowd views order) body := by
  obtain ⟨suspensions, rfl⟩ := Nat.exists_eq_succ_of_ne_zero (Nat.ne_zero_of_lt hpatience)
  have hanswers : ∀ v ∈ views, v.Answers := fun v hv => (hcompletes v hv).1
  have hperm :=
    perm_schedule a.settings.concurrentAcquisition hanswers (Nat.le_of_lt_succ hpatience)
  refine ⟨isCrowd a.settings.concurrentAcquisition (positioned views), _, hperm, ?_⟩
  rw [run, if_neg (by simpa using hne)]
  rfl

/-- A call whose views have answered in any order agrees with one that asks them in turn. -/
theorem agrees_order (a : Aggregator) (crowd : Bool) {patience : Nat} (hasks : OnlyAsks body)
    (hshows : ∀ held, ShowsInOrder body held) (hcompletes : ∀ v ∈ views, v.Completes)
    (horder : order.Perm (positioned views)) (hne : views ≠ [])
    (hpatience : turnCount views < patience) :
    (a.conclude views.length (inOrder crowd views order) body).Agrees views
      ((a.acquiring false).run patience views body) := by
  obtain ⟨crowd', order', horder', hrun⟩ :=
    (a.acquiring false).run_of_patient body hne hcompletes hpatience
  rw [hrun]
  exact a.agrees_conclude crowd crowd' hasks hshows hcompletes horder horder'

theorem agrees_run (a : Aggregator) {patience patience' : Nat} (hasks : OnlyAsks body)
    (hshows : ∀ held, ShowsInOrder body held) (hcompletes : ∀ v ∈ views, v.Completes)
    (hpatience : turnCount views < patience) (hpatience' : turnCount views < patience') :
    ((a.acquiring true).run patience views body).Agrees views
      ((a.acquiring false).run patience' views body) := by
  by_cases hne : views = []
  · obtain ⟨n, rfl⟩ := Nat.exists_eq_succ_of_ne_zero (Nat.ne_zero_of_lt hpatience)
    obtain ⟨n', rfl⟩ := Nat.exists_eq_succ_of_ne_zero (Nat.ne_zero_of_lt hpatience')
    subst hne
    exact ⟨rfl, nofun, rfl, .refl _, rfl, List.prefix_rfl, fun _ => rfl⟩
  · obtain ⟨crowd, order, horder, hrun⟩ :=
      (a.acquiring true).run_of_patient body hne hcompletes hpatience
    rw [hrun]
    exact a.agrees_order crowd hasks hshows hcompletes horder hne hpatience'

/-- **Asking all at once and asking in turn agree.** Let all views complete. For a caller who waits
long enough, a call that asks them all at once agrees with the same call that asks them one after
the other. It would do so in whatever order the views answered: a crowd of them would be lined up in
view order, and the calls would agree. -/
theorem agrees_calls (a : Aggregator) (views : List (View α))
    (hcompletes : ∀ v ∈ views, v.Completes) :
    (∀ patience patience', turnCount views < patience → turnCount views < patience' →
      (∀ query : List (Guard α) → Answer β,
        ((a.acquiring true).runAcross patience views query).Agrees views
          ((a.acquiring false).runAcross patience' views query)) ∧
      ∀ query : Guard α → Answer β,
        ((a.acquiring true).runPerView patience views query).Agrees views
          ((a.acquiring false).runPerView patience' views query)) ∧
    ∀ order, order.Perm (positioned views) →
      crowdOrder order (positioned views) = positioned views ∧
      ∀ crowd patience, views ≠ [] → turnCount views < patience →
        (∀ query : List (Guard α) → Answer β,
          (a.conclude views.length (inOrder crowd views order) (askTogether query)).Agrees views
            ((a.acquiring false).runAcross patience views query)) ∧
        ∀ query : Guard α → Answer β,
          (a.conclude views.length (inOrder crowd views order) (askApart query)).Agrees views
            ((a.acquiring false).runPerView patience views query) := by
  constructor
  · refine fun patience patience' h h' => ⟨fun query => ?_, fun query => ?_⟩
    · exact a.agrees_run (onlyAsks_askTogether query) (showsInOrder_askTogether query) hcompletes
        h h'
    · exact a.agrees_run (onlyAsks_askApart query) (showsInOrder_askApart query) hcompletes h h'
  · refine fun order horder => ⟨crowdOrder_of_perm horder, fun crowd patience hne h => ?_⟩
    refine ⟨fun query => ?_, fun query => ?_⟩
    · exact a.agrees_order crowd (onlyAsks_askTogether query) (showsInOrder_askTogether query)
        hcompletes horder hne h
    · exact a.agrees_order crowd (onlyAsks_askApart query) (showsInOrder_askApart query)
        hcompletes horder hne h

/-- Three views: the last answers before the first, and the one between them fails. -/
def lateViews : List (View Nat) :=
  [{ id := "a", delay := 2, answer := .snapshot 1 },
   { id := "b", answer := .failure (.acquisition "b" "busy") },
   { id := "c", delay := 1, answer := .snapshot 3 }]

/-- The query for the sum of all snapshots. -/
def sumQuery (guards : List (Guard Nat)) : Answer Nat := .value (guards.map Guard.snapshot).sum

/-- Asked all at once, the last view is the first to be acquired; but the query is shown the
same. -/
theorem agrees_calls_late :
    ((acquiring {} true).runAcross 9 lateViews sumQuery).events =
        [.acquired 2, .acquired 0, .queried [0, 2], .released 0, .released 2] ∧
      ((acquiring {} false).runAcross 9 lateViews sumQuery).events =
        [.acquired 0, .acquired 2, .queried [0, 2], .released 0, .released 2] ∧
      ((acquiring {} true).runAcross 9 lateViews sumQuery).Agrees lateViews
        ((acquiring {} false).runAcross 9 lateViews sumQuery) := by
  have hcompletes : ∀ v ∈ lateViews, v.Completes := by
    simp [lateViews, View.Completes, View.Answers, View.panic?]
  have hagrees := (agrees_calls (β := Nat) {} lateViews hcompletes).1 9 9 (by decide) (by decide)
  exact ⟨rfl, rfl, hagrees.1 sumQuery⟩

end Aggregator

end WorkspaceWatch
