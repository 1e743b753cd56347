import WorkspaceWatch.Proofs.Coverage.Exact
import WorkspaceWatch.Watch.Stepwise

/-!
# What lies ahead

While the handling of a notice goes on, an entry may be neither queued nor registered and still be
in good hands: it lies at or below something that the handling is going to look at. Such an entry
lies **ahead** (`Walk.Stage.Ahead`, `Handling.Owes`).

One step may find another file system than the step before, as long as the tree is clear in both and
nothing disappears. Still, of what lies ahead nothing is passed by: after the step it lies ahead as
before, or the step has queued it and, if it is a directory, registered it
(`Walk.Stage.Steps.settles`, `Handling.Steps.settles`).
-/

namespace WorkspaceWatch

namespace Coverage

variable {fs : FileSystem} {scope : Scope} {root : Path} {r p q : Place}

/-! ### Places on the way to a place -/

theorem exists_cons_suffix {q p : Place} (hs : q <:+ p) (hne : q ≠ p) :
    ∃ name, name :: q <:+ p := by
  obtain ⟨pre, rfl⟩ := hs
  obtain ⟨pre, name, rfl⟩ := List.eq_nil_or_concat' pre |>.resolve_left fun hnil =>
    hne (by rw [hnil, List.nil_append])
  exact ⟨name, pre, by rw [List.append_assoc, List.singleton_append]⟩

/-- What leads to something visible is visible itself, apart from the root. -/
theorem Visible.of_suffix (h : Visible scope fs root r p) (hs : q <:+ p) (hne : q ≠ []) :
    Visible scope fs root r q := by
  by_cases heq : q = p
  · rwa [heq]
  · exact (h.covers_of_suffix hs heq).visible hne

namespace Walk.Stage

variable {s s' : Stage}

/-- The place lies at or below a directory that waits. -/
def Awaits (root : Path) (waiting : List Path) (p : Place) : Prop :=
  ∃ q, q ≠ [] ∧ q <:+ p ∧ root.under q ∈ waiting

/-- The place lies at or below something that the walk is going to look at. -/
def Ahead (root : Path) (p : Place) : Stage → Prop
  | turning _ waiting => Awaits root waiting p
  | reading _ waiting dir =>
    Awaits root waiting p ∨ ∃ q, q <:+ p ∧ q ≠ p ∧ root.under q = dir
  | examining _ waiting dir names =>
    Awaits root waiting p ∨ ∃ name q, name :: q <:+ p ∧ root.under q = dir ∧ name ∈ names

theorem Awaits.of_suffix {waiting : List Path} (h : Awaits root waiting q) (hs : q <:+ p) :
    Awaits root waiting p := by
  obtain ⟨q', hne, hs', hmem⟩ := h
  exact ⟨q', hne, hs'.trans hs, hmem⟩

/-- What lies in something that is ahead lies ahead as well. -/
theorem Ahead.of_suffix (h : s.Ahead root q) (hs : q <:+ p) : s.Ahead root p := by
  cases s with
  | turning w waiting => exact Awaits.of_suffix h hs
  | reading w waiting dir =>
    rcases h with h | ⟨q', hs', hne, hdir⟩
    · exact .inl (h.of_suffix hs)
    · refine .inr ⟨q', hs'.trans hs, ?_, hdir⟩
      rintro rfl
      exact hne (hs'.eq_of_length_le hs.length_le)
  | examining w waiting dir names =>
    rcases h with h | ⟨name, q', hs', hdir, hname⟩
    · exact .inl (h.of_suffix hs)
    · exact .inr ⟨name, q', hs'.trans hs, hdir, hname⟩

/-! ### One step of a walk -/

/-- What one step can do in a walk that keeps links, is lenient and is refused nothing. -/
inductive Steps (fs : FileSystem) (scope : Scope) : Stage → Stage → Prop
  /-- The next directory is registered. -/
  | turned {w w' : Walk} {waiting : List Path} {dir : Path}
      (registered : w'.coverage.isRegistered dir = true)
      (kept : w.coverage.directories ⊆ w'.coverage.directories) (found : w'.found = w.found) :
      Steps fs scope (.turning w (dir :: waiting)) (.reading w' waiting dir)
  | unreadable {w : Walk} {waiting : List Path} {dir : Path} {e : IoFault}
      (list : fs.list dir = .error e) :
      Steps fs scope (.reading w waiting dir) (.turning w waiting)
  | read {w : Walk} {waiting : List Path} {dir : Path} {v : Place} {names : List Name}
      (list : fs.list dir = .ok (v, names)) :
      Steps fs scope (.reading w waiting dir) (.examining w waiting dir names)
  | finished {w : Walk} {waiting : List Path} {dir : Path} :
      Steps fs scope (.examining w waiting dir []) (.turning w waiting)
  | ignored {w : Walk} {waiting : List Path} {dir : Path} {name : Name} {names : List Name}
      (hidden : scope.ignore.ignores (dir.child name) = true) :
      Steps fs scope (.examining w waiting dir (name :: names)) (.examining w waiting dir names)
  /-- The next entry is found, and waits if it is to be entered. -/
  | found {w : Walk} {waiting : List Path} {dir : Path} {name : Name} {names : List Name} :
      Steps fs scope (.examining w waiting dir (name :: names))
        (.examining { w with found := w.found ++ [dir.child name] }
          (if scope.enters fs (dir.child name) then dir.child name :: waiting else waiting)
          dir names)

/-- Such a walk takes a step, or it is over since no directory waits. -/
theorem step_cases (fs : FileSystem) (hlinks : scope.followLinks = false) (s : Stage) :
    (∃ w, s = .turning w [] ∧ s.step fs scope Backend.acceptAll false = .inr (w, none)) ∨
      ∃ s', s.step fs scope Backend.acceptAll false = .inl s' ∧ Steps fs scope s s' := by
  cases s with
  | turning w waiting =>
    cases waiting with
    | nil => exact .inl ⟨w, rfl, rfl⟩
    | cons dir waiting =>
      refine .inr ?_
      have haccepted := (w.noted fs scope dir).register_acceptAll dir
      rcases hregister : (w.noted fs scope dir).register Backend.acceptAll dir with
        ⟨w', _ | refusal⟩
      · refine ⟨.reading w' waiting dir, ?_, .turned (register_eq_none hregister).1
          (subset_register (w := w.noted fs scope dir) hregister) (register_frame hregister).2⟩
        rw [step, approach, w.hasVisited_of_keeping hlinks, if_neg Bool.false_ne_true, hregister]
      · rw [hregister] at haccepted
        cases haccepted
  | reading w waiting dir =>
    refine .inr ?_
    rcases hlist : fs.list dir with e | ⟨v, names⟩
    · exact ⟨_, by rw [step, hlist]; rfl, .unreadable hlist⟩
    · exact ⟨_, by rw [step, hlist], .read hlist⟩
  | examining w waiting dir names =>
    refine .inr ?_
    cases names with
    | nil => exact ⟨_, rfl, .finished⟩
    | cons name names =>
      by_cases hidden : scope.ignore.ignores (dir.child name) = true
      · exact ⟨_, by rw [step, if_pos hidden], .ignored hidden⟩
      · exact ⟨_, by rw [step, if_neg hidden], .found⟩

namespace Steps

theorem subset_directories (h : Steps fs scope s s') :
    s.walk.coverage.directories ⊆ s'.walk.coverage.directories := by
  cases h with
  | turned _ kept _ => exact kept
  | _ => exact List.Subset.refl _

theorem subset_found (h : Steps fs scope s s') : s.walk.found ⊆ s'.walk.found := by
  cases h with
  | turned _ _ found => exact fun _ hp => found ▸ hp
  | found => exact List.subset_append_left _ _
  | _ => exact List.Subset.refl _

/-- What waits has waited before or was found. -/
theorem waiting (h : Steps fs scope s s') {d : Path} (hd : d ∈ s'.waiting) :
    d ∈ s.waiting ∨ d ∈ s'.walk.found := by
  cases h with
  | turned => exact .inl (List.mem_cons_of_mem _ hd)
  | @found w waiting dir name names =>
    rw [Stage.waiting] at hd
    split at hd
    · rcases List.mem_cons.mp hd with rfl | hd
      · exact .inr (List.mem_append_right _ List.mem_cons_self)
      · exact .inl hd
    · exact .inl hd
  | _ => exact .inl hd

/-- A step passes by nothing that lies ahead and is visible. -/
theorem settles (h : Steps fs scope s s') (hclear : IsClear scope fs root r)
    (hlinks : scope.followLinks = false) (hp : Visible scope fs root r p)
    (hahead : s.Ahead root p) :
    s'.Ahead root p ∨ (root.under p ∈ s.waiting ∨ root.under p ∈ s'.walk.found) ∧
      (Covers scope fs root r p → s'.walk.coverage.isRegistered (root.under p) = true) := by
  cases h with
  | @turned w w' waiting dir registered =>
    obtain ⟨q, hne, hs, hmem⟩ := hahead
    rcases List.mem_cons.mp hmem with rfl | hmem
    · by_cases heq : q = p
      · subst heq
        exact .inr ⟨.inl List.mem_cons_self, fun _ => registered⟩
      · exact .inl (.inr ⟨q, hs, heq, rfl⟩)
    · exact .inl (.inl ⟨q, hne, hs, hmem⟩)
  | unreadable list =>
    rcases hahead with hawaits | ⟨q, hs, hne, rfl⟩
    · exact .inl hawaits
    · rw [hclear.list_under (hp.covers_of_suffix hs hne)] at list
      cases list
  | @read w waiting dir v names list =>
    rcases hahead with hawaits | ⟨q, hs, hne, rfl⟩
    · exact .inl (.inl hawaits)
    · obtain ⟨name, hs'⟩ := exists_cons_suffix hs hne
      rw [hclear.list_under (hp.covers_of_suffix hs hne)] at list
      cases list
      have hvisible := hp.of_suffix hs' (List.cons_ne_nil name q)
      refine .inl (.inr ⟨name, q, hs', rfl, ?_⟩)
      exact fs.mem_names_iff.mpr (Option.isSome_iff_exists.mp hvisible.2.1)
  | finished =>
    rcases hahead with hawaits | ⟨_, _, -, -, hname⟩
    · exact .inl hawaits
    · cases hname
  | ignored hidden =>
    rcases hahead with hawaits | ⟨name, q, hs, rfl, hname⟩
    · exact .inl (.inl hawaits)
    · rcases List.mem_cons.mp hname with rfl | hname
      · have hshown := (hp.of_suffix hs (List.cons_ne_nil _ _)).ignores_eq_false
        rw [Path.under_cons, hidden] at hshown
        cases hshown
      · exact .inl (.inr ⟨name, q, hs, rfl, hname⟩)
  | @found w waiting dir name names =>
    have hgrows : ∀ {p : Place}, Awaits root waiting p → Awaits root (if scope.enters fs
        (dir.child name) then dir.child name :: waiting else waiting) p := by
      rintro p ⟨q, hne, hs, hmem⟩
      refine ⟨q, hne, hs, ?_⟩
      split
      · exact List.mem_cons_of_mem _ hmem
      · exact hmem
    rcases hahead with hawaits | ⟨name', q, hs, rfl, hname⟩
    · exact .inl (.inl (hgrows hawaits))
    · rcases List.mem_cons.mp hname with rfl | hname
      · -- The entry itself is found here, and what is in it lies ahead once it waits.
        have hne : name' :: q ≠ [] := List.cons_ne_nil name' q
        have henters := hclear.enters_iff hlinks (hp.of_suffix hs hne)
        rw [Path.under_cons] at henters
        by_cases hcovers : Covers scope fs root r (name' :: q)
        · refine .inl (.inl ⟨name' :: q, hne, hs, ?_⟩)
          rw [if_pos (henters.mpr hcovers)]
          exact List.mem_cons_self
        · obtain rfl : name' :: q = p := by_contra fun heq => hcovers (hp.covers_of_suffix hs heq)
          refine .inr ⟨.inr (List.mem_append_right _ ?_), fun h => absurd h hcovers⟩
          rw [Path.under_cons]
          exact List.mem_singleton_self _
      · exact .inl (.inr ⟨name', q, hs, rfl, hname⟩)

end Steps

end Walk.Stage

end Coverage

/-- A creation that asks for no walk concerns no directory, and it is queued unless it is
ignored. -/
theorem Intake.absorb_created_of_not_entered {plan : Plan} {fs : FileSystem} {c : Coverage}
    {p : Path} (hother : ¬(plan.scope.ignore.ignores p = false ∧ plan.scope.enters fs p = true)) :
    (absorb plan fs c (.created p)).1.directories = c.directories ∧
      (plan.scope.ignore.ignores p = false → .created p ∈ (absorb plan fs c (.created p)).2) := by
  by_cases hignored : plan.scope.ignore.ignores p = true
  · rw [absorb_of_ignores (.created p) hignored]
    refine ⟨rfl, fun hshown => ?_⟩
    rw [hignored] at hshown
    cases hshown
  · have hshown : plan.scope.ignore.ignores p = false := by simpa using hignored
    rw [absorb_created hshown, if_neg fun henters => hother ⟨hshown, henters⟩]
    exact ⟨rfl, fun _ => List.mem_cons_self⟩

namespace Handling

open Coverage (Covers Visible IsClear Walk)

variable {plan : Plan} {fs : FileSystem} {now : Nat} {root : Path} {r p : Place} {i i' : Intake}
  {h h' : Handling}

/-- What the handling has queued, or will have queued when the walk that goes on is over. -/
def gathered (h : Handling) : List Change :=
  h.queued ++
    match h.errand? with
    | some (change, s) => change :: s.walk.found.map .created
    | none => []

/-- The place lies at or below something that the handling is going to deal with. -/
inductive Owes (root : Path) (p : Place) (h : Handling) : Prop
  | due {q : Place} (ne_nil : q ≠ []) (within : q <:+ p)
      (mem : .created (root.under q) ∈ h.changes) : Owes root p h
  | ahead {change : Change} {s : Walk.Stage} (errand : h.errand? = some (change, s))
      (ahead : s.Ahead root p) : Owes root p h

theorem Owes.of_suffix {q : Place} (howes : h.Owes root q) (hs : q <:+ p) : h.Owes root p := by
  cases howes with
  | due hne hs' hmem => exact .due hne (hs'.trans hs) hmem
  | ahead herrand hahead => exact .ahead herrand (hahead.of_suffix hs)

/-- Of a handling that has to do with creations only. -/
structure IsSound (h : Handling) : Prop where
  created : ∀ change ∈ h.changes, ∃ p, change = .created p
  /-- The directories that wait are among what will be queued. -/
  waiting : ∀ change s, h.errand? = some (change, s) → ∀ d ∈ s.waiting, .created d ∈ h.gathered

/-! ### One step of a handling -/

/-- What one step can do with links kept and a watcher that refuses nothing. -/
inductive Steps (plan : Plan) (fs : FileSystem) (now : Nat) (i : Intake) (h : Handling) :
    Option (Intake × Handling) → Prop
  /-- The walk takes a step. -/
  | walked {change : Change} {s s' : Walk.Stage} (errand : h.errand? = some (change, s))
      (steps : s.Steps fs plan.scope s') :
      Steps plan fs now i h (some (i, { h with errand? := some (change, s') }))
  /-- The walk is over. -/
  | returned {change : Change} {w : Walk} (errand : h.errand? = some (change, .turning w [])) :
      Steps plan fs now i h
        (some (settle now i h (w.account none) (change :: w.found.map .created)))
  /-- A walk begins. -/
  | sent {change : Change} {rest : List Change} (errand : h.errand? = none)
      (changes : h.changes = change :: rest) :
      Steps plan fs now i h (some (i,
        { h with
          changes := rest
          errand? := some (change,
            .turning { coverage := i.coverage.record .eventObserved } [change.path]) }))
  /-- A change is absorbed that asks for no walk. -/
  | absorbed {change : Change} {rest : List Change} (errand : h.errand? = none)
      (changes : h.changes = change :: rest)
      (other : ¬(plan.scope.ignore.ignores change.path = false ∧ change.kind = .created ∧
        plan.scope.enters fs change.path = true)) :
      Steps plan fs now i h (some (settle now i { h with changes := rest }
        (Intake.absorb plan fs i.coverage change).1 (Intake.absorb plan fs i.coverage change).2))
  /-- Nothing is left to do. -/
  | done (errand : h.errand? = none) (changes : h.changes = []) : Steps plan fs now i h none

theorem steps_step (hlinks : plan.scope.followLinks = false)
    (hpolicy : plan.policy = Backend.acceptAll) (fs : FileSystem) (now : Nat) (i : Intake)
    (h : Handling) : Steps plan fs now i h (h.step plan fs now i) := by
  cases herrand : h.errand? with
  | some errand =>
    obtain ⟨change, s⟩ := errand
    rcases s.step_cases fs hlinks with ⟨w, rfl, hstep⟩ | ⟨s', hstep, hsteps⟩
    · simp only [step, herrand, hpolicy, hstep]
      exact .returned herrand
    · simp only [step, herrand, hpolicy, hstep]
      exact .walked herrand hsteps
  | none =>
    cases hchanges : h.changes with
    | nil =>
      simp only [step, herrand, hchanges]
      exact .done herrand hchanges
    | cons change rest =>
      simp only [step, herrand, hchanges]
      split
      · exact .sent herrand hchanges
      · next hother => exact .absorbed herrand hchanges hother

namespace Steps

theorem subset_gathered (hsteps : Steps plan fs now i h (some (i', h'))) :
    h.gathered ⊆ h'.gathered := by
  cases hsteps with
  | @walked change s s' herrand hsteps =>
    rw [gathered, gathered, herrand]
    have hfound := List.map_subset Change.created hsteps.subset_found
    exact List.append_subset.mpr ⟨List.subset_append_left _ _,
      List.subset_append_of_subset_right _ (List.cons_subset_cons change hfound)⟩
  | returned herrand =>
    rw [gathered, gathered, herrand, List.append_nil]
    exact List.Subset.refl _
  | sent herrand =>
    rw [gathered, gathered, herrand, List.append_nil]
    exact List.subset_append_left _ _
  | absorbed herrand =>
    rw [gathered, gathered, herrand, List.append_nil, List.append_nil]
    exact List.subset_append_left _ _

theorem subset_directories (hsteps : Steps plan fs now i h (some (i', h'))) (hsound : h.IsSound) :
    (h.coverage i).directories ⊆ (h'.coverage i').directories := by
  cases hsteps with
  | walked herrand hsteps =>
    rw [coverage, coverage, herrand]
    exact hsteps.subset_directories
  | @returned change w herrand =>
    rw [coverage, coverage, herrand]
    dsimp only
    rw [(w.account_frame none).1]
    exact List.Subset.refl _
  | sent herrand =>
    rw [coverage, coverage, herrand]
    exact List.Subset.refl _
  | @absorbed change rest herrand hchanges hother =>
    obtain ⟨p, rfl⟩ := hsound.created change (by rw [hchanges]; exact List.mem_cons_self)
    rw [coverage, coverage, herrand]
    dsimp only
    rw [(Intake.absorb_created_of_not_entered (p := p)
      fun hasks => hother ⟨hasks.1, rfl, hasks.2⟩).1]
    exact List.Subset.refl _

theorem isSound (hsteps : Steps plan fs now i h (some (i', h'))) (hsound : h.IsSound) :
    h'.IsSound := by
  have hgathered := hsteps.subset_gathered
  cases hsteps with
  | @walked change s s' herrand hsteps =>
    refine ⟨hsound.created, fun _ _ heq d hd => ?_⟩
    cases heq
    rcases hsteps.waiting hd with hd | hd
    · exact hgathered (hsound.waiting _ _ herrand d hd)
    · exact List.mem_append_right _ (List.mem_cons_of_mem _ (List.mem_map_of_mem hd))
  | returned => exact ⟨hsound.created, fun _ _ heq => by cases heq⟩
  | @sent change rest herrand hchanges =>
    have hcreated := hsound.created
    rw [hchanges] at hcreated
    refine ⟨fun _ hmem => hcreated _ (List.mem_cons_of_mem _ hmem), fun _ _ heq d hd => ?_⟩
    cases heq
    obtain ⟨p, rfl⟩ := hcreated change List.mem_cons_self
    obtain rfl := List.mem_singleton.mp hd
    exact List.mem_append_right _ List.mem_cons_self
  | absorbed _ hchanges =>
    refine ⟨fun change hmem => hsound.created change ?_, fun _ _ heq => by cases heq⟩
    rw [hchanges]
    exact List.mem_cons_of_mem _ hmem

/-- A step of a handling passes by nothing that it owes. -/
theorem settles (hsteps : Steps plan fs now i h (some (i', h'))) (hsound : h.IsSound)
    (hclear : IsClear plan.scope fs root r) (hlinks : plan.scope.followLinks = false)
    (hp : Visible plan.scope fs root r p) (howes : h.Owes root p) :
    h'.Owes root p ∨ .created (root.under p) ∈ h'.gathered ∧
      (Covers plan.scope fs root r p →
        (h'.coverage i').isRegistered (root.under p) = true) := by
  have hgathered := hsteps.subset_gathered
  cases hsteps with
  | @walked change s s' herrand hsteps =>
    cases howes with
    | due hne hs hmem => exact .inl (.due hne hs hmem)
    | ahead herrand' hahead =>
      cases herrand.symm.trans herrand'
      rcases hsteps.settles hclear hlinks hp hahead with hahead | ⟨hknown, hregistered⟩
      · exact .inl (.ahead rfl hahead)
      · refine .inr ⟨?_, hregistered⟩
        rcases hknown with hwaits | hfound
        · exact hgathered (hsound.waiting _ _ herrand _ hwaits)
        · exact List.mem_append_right _ (List.mem_cons_of_mem _ (List.mem_map_of_mem hfound))
  | returned herrand =>
    cases howes with
    | due hne hs hmem => exact .inl (.due hne hs hmem)
    | ahead herrand' hahead =>
      cases herrand.symm.trans herrand'
      obtain ⟨_, -, -, hmem⟩ := hahead
      cases hmem
  | sent herrand hchanges =>
    cases howes with
    | due hne hs hmem =>
      rw [hchanges] at hmem
      rcases List.mem_cons.mp hmem with rfl | hmem
      · exact .inl (.ahead rfl ⟨_, hne, hs, List.mem_singleton_self _⟩)
      · exact .inl (.due hne hs hmem)
    | ahead herrand' => cases herrand.symm.trans herrand'
  | absorbed herrand hchanges hother =>
    cases howes with
    | @due q hne hs hmem =>
      rw [hchanges] at hmem
      rcases List.mem_cons.mp hmem with rfl | hmem
      · -- What asks for no walk is no directory, so nothing else is in it.
        have hvisible := hp.of_suffix hs hne
        have hcovers : ¬Covers plan.scope fs root r q := fun hcovers =>
          hother ⟨hvisible.ignores_eq_false, rfl, (hclear.enters_iff hlinks hvisible).mpr hcovers⟩
        obtain rfl : q = p := by_contra fun heq => hcovers (hp.covers_of_suffix hs heq)
        refine .inr ⟨List.mem_append_left _ (List.mem_append_right _ ?_), fun h => absurd h hcovers⟩
        exact (Intake.absorb_created_of_not_entered
          fun hasks => hother ⟨hasks.1, rfl, hasks.2⟩).2 hvisible.ignores_eq_false
      · exact .inl (.due hne hs hmem)
    | ahead herrand' => cases herrand.symm.trans herrand'

end Steps

/-- Nothing is owed where nothing is left to do. -/
theorem not_owes_of_done (herrand : h.errand? = none) (hchanges : h.changes = []) :
    ¬h.Owes root p := by
  rintro (⟨-, -, hmem⟩ | ⟨herrand', -⟩)
  · rw [hchanges] at hmem
    cases hmem
  · cases herrand.symm.trans herrand'

end Handling

end WorkspaceWatch
