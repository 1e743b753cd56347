import WorkspaceWatch.Proofs.Coverage.Walk

/-!
# Where the watcher stops a walk

A walk asks the watcher for one path after the other, and the watcher's answer to one of them
decides only whether the walk goes on. So what a walk asks for can be seen from the walk that is
refused nothing: any other registers the same paths in the same order, up to the first that the
watcher refuses in its turn (`walk_eq`).

To relate the two walks they have to be known by their steps alone. `Walk.Runs.unique` says that
they are.
-/

namespace WorkspaceWatch

namespace Backend

/-- The watcher after it was asked for paths in turn and has accepted them all. -/
def watching (b : Backend) (paths : List Path) : Backend :=
  { live := b.live ++ paths, attempts := b.attempts ++ paths }

@[simp] theorem watching_nil (b : Backend) : b.watching [] = b := by
  simp [watching]

theorem watching_append (b : Backend) (ps qs : List Path) :
    b.watching (ps ++ qs) = (b.watching ps).watching qs := by
  simp [watching]

/-- The first path that the watcher refuses when it is asked for paths in turn, and why. -/
def Policy.refusal? (policy : Policy) : Backend → List Path → Option Refusal
  | _, [] => none
  | b, p :: rest =>
    match policy b p with
    | some reason => some ⟨p, reason⟩
    | none => refusal? policy (b.watching [p]) rest

theorem Policy.refusal?_append (policy : Policy) (b : Backend) (ps qs : List Path) :
    policy.refusal? b (ps ++ qs) =
      (policy.refusal? b ps).or (policy.refusal? (b.watching ps) qs) := by
  induction ps generalizing b with
  | nil => simp [refusal?]
  | cons p ps ih =>
    rw [List.cons_append, refusal?, refusal?]
    cases policy b p with
    | some reason => rfl
    | none => rw [ih, ← watching_append, List.singleton_append]

/-- What the watcher refuses is one of the paths for which it was asked. -/
theorem Policy.mem_of_refusal? {policy : Policy} {b : Backend} {paths : List Path}
    {refusal : Refusal} (h : policy.refusal? b paths = some refusal) : refusal.path ∈ paths := by
  induction paths generalizing b with
  | nil => cases h
  | cons p paths ih =>
    rw [refusal?] at h
    split at h
    · cases h
      exact List.mem_cons_self
    · exact List.mem_cons_of_mem p (ih h)

end Backend

namespace Coverage

variable {fs : FileSystem} {scope : Scope} {policy : Backend.Policy} {strict : Bool}
  {w w' : Walk} {dir : Path}

/-! ### The steps of a walk are determined -/

private theorem Walk.visit_of_known (seen : w.hasVisited fs scope dir = true) :
    w.visit fs scope policy strict dir = .passed w := by
  rw [visit, approach, if_pos seen]

private theorem Walk.visit_of_new (new : w.hasVisited fs scope dir = false) :
    w.visit fs scope policy strict dir =
      match (w.noted fs scope dir).register policy dir with
      | (w, some refusal) => .stopped w refusal
      | (w, none) =>
        match fs.list dir with
        | .error e => if strict then .stopped w ⟨dir, e.message⟩ else .passed w
        | .ok (_, names) =>
          .entered { w with found := w.found ++ scope.kept dir names }
            ((scope.kept dir names).filter (scope.enters fs)) := by
  rw [visit, approach, if_neg (by simp [new])]
  rcases (w.noted fs scope dir).register policy dir with ⟨w', _ | refusal⟩ <;> rfl

/-- What comes of turning to a directory can be told from the walk and the directory. -/
theorem Walk.Turns.eq_visit {visit : Visit} (h : w.Turns fs scope policy strict dir visit) :
    w.visit fs scope policy strict dir = visit := by
  cases h with
  | known seen => exact visit_of_known seen
  | refused new register => rw [visit_of_new new, register]
  | unreadable new register list lenient =>
    rw [visit_of_new new, register, list, lenient]
    rfl
  | ended new register list exacting =>
    rw [visit_of_new new, register, list, exacting]
    rfl
  | entered new register list => rw [visit_of_new new, register, list]

/-- Only one thing can come of a walk. -/
theorem Walk.Runs.unique {waiting : List Path} {after after' : Walk × Option Refusal}
    (h : Runs fs scope policy strict waiting w after)
    (h' : Runs fs scope policy strict waiting w after') : after = after' := by
  induction h generalizing after' with
  | done =>
    cases h'
    rfl
  | passed turns _ ih =>
    cases h' with
    | passed turns' rest =>
      cases turns.eq_visit.symm.trans turns'.eq_visit
      exact ih rest
    | stopped turns' | entered turns' => cases turns.eq_visit.symm.trans turns'.eq_visit
  | stopped turns =>
    cases h' with
    | stopped turns' =>
      cases turns.eq_visit.symm.trans turns'.eq_visit
      rfl
    | passed turns' | entered turns' => cases turns.eq_visit.symm.trans turns'.eq_visit
  | entered turns _ ih =>
    cases h' with
    | entered turns' rest =>
      cases turns.eq_visit.symm.trans turns'.eq_visit
      exact ih rest
    | passed turns' | stopped turns' => cases turns.eq_visit.symm.trans turns'.eq_visit

/-! ### Following a walk that is refused nothing -/

/-- The walk as it is with a watcher that was as in `c` when it began, and that has accepted
everything since. -/
def Walk.rebased (c : Coverage) (w : Walk) : Walk :=
  { w with
    coverage := { w.coverage with backend := c.backend.watching w.added, tally := c.tally } }

variable {c : Coverage}

/-- A watcher either accepts what a walk registers that is refused nothing, or refuses it. -/
theorem Walk.register_rebased (policy : Backend.Policy) (c : Coverage)
    (h : w.register Backend.acceptAll dir = (w', none)) :
    ∃ own, w'.added = w.added ++ own ∧
      (policy.refusal? (c.backend.watching w.added) own = none ∧
          (w.rebased c).register policy dir = (w'.rebased c, none) ∨
        ∃ refusal w₁, policy.refusal? (c.backend.watching w.added) own = some refusal ∧
          (w.rebased c).register policy dir = (w₁, some refusal)) := by
  rw [Walk.register] at h
  by_cases hregistered : w.coverage.isRegistered dir = true
  · rw [if_pos hregistered] at h
    cases h
    refine ⟨[], (List.append_nil _).symm, .inl ⟨rfl, ?_⟩⟩
    rw [Walk.register]
    exact if_pos hregistered
  · rw [if_neg hregistered] at h
    cases h
    have hfree : ¬(w.rebased c).coverage.isRegistered dir = true := hregistered
    refine ⟨[dir], rfl, ?_⟩
    rw [Walk.register, if_neg hfree, Coverage.watch, Backend.Policy.refusal?]
    have hasked : (w.rebased c).coverage.backend = c.backend.watching w.added := rfl
    rw [hasked]
    cases policy (c.backend.watching w.added) dir with
    | some reason => exact .inr ⟨⟨dir, reason⟩, _, rfl, rfl⟩
    | none =>
      refine .inl ⟨rfl, ?_⟩
      simp only [rebased, Backend.watching_append]
      rfl

/-- When the walk `w` goes on with `waiting` waiting, it follows one that is refused nothing, has
registered the paths `base` so far and comes to `after`: it is stopped by the first path that is
refused among those that are still to be registered, and if there is none, it comes to the same. -/
def Walk.Follows (fs : FileSystem) (scope : Scope) (policy : Backend.Policy) (strict : Bool)
    (c : Coverage) (waiting : List Path) (w : Walk) (base : List Path)
    (after : Walk × Option Refusal) : Prop :=
  ∃ own w', after.1.added = base ++ own ∧
    Runs fs scope policy strict waiting (w.rebased c)
      (w', (policy.refusal? (c.backend.watching base) own).or after.2) ∧
    (policy.refusal? (c.backend.watching base) own = none → w' = after.1.rebased c)

namespace Walk.Follows

variable {waiting waiting' base : List Path} {w₁ : Walk} {after : Walk × Option Refusal}

private theorem exists_added (h : Follows fs scope policy strict c waiting w base after) :
    ∃ own, after.1.added = base ++ own :=
  h.imp fun _ ⟨_, hadded, _⟩ => hadded

private theorem imp (h : Follows fs scope policy strict c waiting w base after)
    (runs : ∀ {after'}, Runs fs scope policy strict waiting (w.rebased c) after' →
      Runs fs scope policy strict waiting' (w'.rebased c) after') :
    Follows fs scope policy strict c waiting' w' base after := by
  obtain ⟨own, w₁, hadded, hruns, hsame⟩ := h
  exact ⟨own, w₁, hadded, runs hruns, hsame⟩

/-- It is enough to follow on from where a directory was registered. -/
private theorem of_register (new : w.hasVisited fs scope dir = false)
    (register : (w.noted fs scope dir).register Backend.acceptAll dir = (w₁, none))
    (next : ((w.rebased c).noted fs scope dir).register policy dir = (w₁.rebased c, none) →
      Follows fs scope policy strict c (dir :: waiting) w w₁.added after)
    (hafter : ∃ later, after.1.added = w₁.added ++ later) :
    Follows fs scope policy strict c (dir :: waiting) w w.added after := by
  obtain ⟨first, hfirst, ⟨hnone, haccepted⟩ | ⟨refusal, w', hsome, hrefused⟩⟩ :=
    register_rebased policy c register
  · obtain ⟨own, w', hadded, hruns, hsame⟩ := next haccepted
    have hown : policy.refusal? (c.backend.watching w.added) (first ++ own) =
        policy.refusal? (c.backend.watching w₁.added) own := by
      rw [Backend.Policy.refusal?_append, hfirst, Backend.watching_append]
      exact congrArg (Option.or · _) hnone
    refine ⟨first ++ own, w', ?_, hown ▸ hruns, hown ▸ hsame⟩
    rw [hadded, hfirst, List.append_assoc]
    rfl
  · obtain ⟨later, hlater⟩ := hafter
    have hown : policy.refusal? (c.backend.watching w.added) (first ++ later) = some refusal := by
      rw [Backend.Policy.refusal?_append]
      exact congrArg (Option.or · _) hsome
    refine ⟨first ++ later, w', ?_, ?_, fun hnone => ?_⟩
    · rw [hlater, hfirst, List.append_assoc]
      rfl
    · rw [hown]
      exact .stopped (.refused new hrefused)
    · rw [hown] at hnone
      cases hnone

end Walk.Follows

/-- **A walk follows the one that is refused nothing.** -/
theorem Walk.Runs.follow {waiting : List Path} {after : Walk × Option Refusal}
    (hrun : Runs fs scope Backend.acceptAll strict waiting w after) (policy : Backend.Policy)
    (c : Coverage) : Follows fs scope policy strict c waiting w w.added after := by
  induction hrun with
  | done => exact ⟨[], _, (List.append_nil _).symm, .done, fun _ => rfl⟩
  | passed turns _ ih =>
    cases turns with
    | known seen => exact ih.imp (.passed (.known seen))
    | unreadable new register list lenient =>
      exact .of_register new register (fun register' =>
        ih.imp (.passed (.unreadable new register' list lenient))) ih.exists_added
  | @stopped dir waiting w w' refusal turns =>
    cases turns with
    | refused _ register =>
      have haccepted := Walk.register_acceptAll (w.noted fs scope dir) dir
      rw [register] at haccepted
      cases haccepted
    | ended new register list exacting =>
      refine .of_register new register (fun register' => ?_) ⟨[], (List.append_nil _).symm⟩
      exact ⟨[], _, (List.append_nil _).symm, .stopped (.ended new register' list exacting),
        fun _ => rfl⟩
  | @entered dir waiting children w w' after turns _ ih =>
    cases turns with
    | entered new register list =>
      refine .of_register new register (fun register' => ?_) ih.exists_added
      have new' : (w.rebased c).hasVisited fs scope dir = false := new
      exact ih.imp fun rest => .entered (.entered new' register' list) rest

/-- The refusal that stops a walk from an empty coverage: the first one among the paths that it
would register otherwise, or else what stops it anyway. If nothing is refused, the walk comes to the
same. -/
theorem walk_eq (fs : FileSystem) (scope : Scope) (policy : Backend.Policy) (strict : Bool)
    (hc : c.directories = []) (start : Path) :
    (walk fs scope policy strict c start).2 =
        (policy.refusal? c.backend (walk fs scope Backend.acceptAll strict {} start).1.added).or
          (walk fs scope Backend.acceptAll strict {} start).2 ∧
      (policy.refusal? c.backend (walk fs scope Backend.acceptAll strict {} start).1.added = none →
        (walk fs scope policy strict c start).1 =
          (walk fs scope Backend.acceptAll strict {} start).1.rebased c) := by
  obtain ⟨own, w', hadded, hruns, hsame⟩ :=
    (runs_walk fs scope Backend.acceptAll strict {} start).follow policy c
  have hstart : Walk.rebased c { coverage := {} } = { coverage := c } := by
    cases c
    cases hc
    simp [Walk.rebased]
  rw [hstart] at hruns
  rw [(runs_walk fs scope policy strict c start).unique hruns, hadded, List.nil_append]
  simpa using hsame

end Coverage

end WorkspaceWatch
