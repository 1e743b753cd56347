import WorkspaceWatch.Proofs.Loop.Ahead
import WorkspaceWatch.Proofs.Loop.Conservation
import WorkspaceWatch.Proofs.Loop.Stepwise

/-!
# Discovery

Entries appear below the root while the loop works: single ones or whole trees, next to or inside of
each other and at any time, also between two steps of a walk. The operating system tells of an entry
only if the directory around it is registered at that moment; whatever appears in a directory that
is not registered yet goes untold. Nevertheless nothing is missed. Once the queue is empty and no
notice is in hand, every entry that has appeared where it can be seen was queued as created, and
every directory that is to be covered is registered (`Work.discovers`).

The invariant is that whatever is not settled lies in something of which a signal still waits
(`Work.Announced`) or which the handling of a notice has still ahead (`Handling.Owes`). It is kept
because a walk registers a directory before it reads it. What appears in the directory up to then is
read, and what appears later is told.
-/

namespace WorkspaceWatch

open Coverage (Covers Visible IsClear)

/-- Handling a signal of creation begins with one change, and with nothing else. -/
theorem Handling.begin_creates (plan : Plan) (fs : FileSystem) (now : Nat) (i : Intake) {p : Path}
    {s : Signal} (h : s.Creates p) : begin plan fs now i (.signal s) =
      (i, { notice := .signal s, time := now, changes := [.created p] }) := by
  simp [begin, h.rescan, h.changes]

namespace Work

/-! ### Runs in which entries appear -/

/-- What is told arrives. -/
def hear (plan : Plan) (w : Work) (signals : List Signal) : Work :=
  { w with loop := (w.loop.run plan (signals.map fun s => .outside (.arrive (.signal s)))).1 }

/-- A run that began with the registration of the root of `fs₀`. Its state is the file system, the
loop at work and what was recorded. Entries appear, and signals that tell of them arrive; the loop
takes turns, time goes by, the notifier answers. An entry that has appeared while its directory is
read may or may not be among the names that are read. -/
inductive Unfolds (plan : Plan) (root : Path) (r : Place) (fs₀ : FileSystem) :
    FileSystem → Work → List Record → Prop
  | started (clear : IsClear plan.scope fs₀ root r) :
      Unfolds plan root r fs₀ fs₀
        { loop := .start plan (Coverage.registerRoot fs₀ plan.scope plan.policy {} root).1 } []
  | appeared {fs fs' : FileSystem} {w : Work} {records : List Record} {p : Place}
      {signals : List Signal} (before : Unfolds plan root r fs₀ fs w records)
      (makes : (Alteration.appears p).Makes r fs fs') (clear : IsClear plan.scope fs' root r)
      (tells : (Alteration.appears p).Tells root w.coverage signals) :
      Unfolds plan root r fs₀ fs' (w.hear plan signals) records
  | listed {fs : FileSystem} {w : Work} {records : List Record} {h : Handling} {change : Change}
      {walk : Coverage.Walk} {waiting : List Path} {dir : Path} {v : Place}
      {names names' : List Name} (before : Unfolds plan root r fs₀ fs w records)
      (handling : w.handling? = some h)
      (errand : h.errand? = some (change, .examining walk waiting dir names))
      (place : fs.place dir = .ok v) (more : names.Sublist names') (real : names' ⊆ fs.names v) :
      Unfolds plan root r fs₀ fs
        { w with
          handling? := some
            { h with errand? := some (change, .examining walk waiting dir names') } } records
  | turned {fs : FileSystem} {w w' : Work} {records more : List Record}
      (before : Unfolds plan root r fs₀ fs w records) (turn : w.turn plan fs = some (w', more)) :
      Unfolds plan root r fs₀ fs w' (records ++ more)
  | advanced {fs : FileSystem} {w : Work} {records : List Record} (milliseconds : Nat)
      (before : Unfolds plan root r fs₀ fs w records) :
      Unfolds plan root r fs₀ fs (w.perform plan (.advance milliseconds)).1
        (records ++ (w.perform plan (.advance milliseconds)).2)
  | answered {fs : FileSystem} {w : Work} {records : List Record} (accepted : Bool)
      (before : Unfolds plan root r fs₀ fs w records) :
      Unfolds plan root r fs₀ fs (w.perform plan (.answer accepted)).1
        (records ++ (w.perform plan (.answer accepted)).2)

variable {plan : Plan} {root : Path} {r p q : Place} {fs₀ fs fs' : FileSystem} {w w' : Work}
  {records records' : List Record}

/-- Several turns in a row make no difference. -/
theorem Unfolds.run (h : Unfolds plan root r fs₀ fs w records) (n : Nat) :
    Unfolds plan root r fs₀ fs (w.run plan fs n).1 (records ++ (w.run plan fs n).2) := by
  induction n generalizing w records with
  | zero => rwa [Work.run, List.append_nil]
  | succ n ih =>
    cases hturn : w.turn plan fs with
    | none =>
      rw [Work.run, hturn]
      simpa using h
    | some after =>
      rw [run_succ hturn, ← List.append_assoc]
      exact ih (h.turned hturn)

/-! ### What is not settled -/

/-- A signal waits by which the entry at `p`, or one in which it lies, was created. -/
def Announced (root : Path) (queue : List Notice) (p : Place) : Prop :=
  ∃ q, q ≠ [] ∧ q <:+ p ∧ ∃ s : Signal, s.Creates (root.under q) ∧ .signal s ∈ queue

/-- The entry at `p`, or one in which it lies, is announced or lies ahead. -/
def Outstanding (root : Path) (w : Work) (p : Place) : Prop :=
  Announced root w.loop.queue p ∨ ∃ h, w.handling? = some h ∧ h.Owes root p

/-- What was queued, or will be when the walk that goes on is over. -/
def gathered (w : Work) (records : List Record) : List Change :=
  records.flatMap Record.gathered ++ w.handling?.elim [] Handling.gathered

/-- An entry is settled when it was queued, unless it was there in the beginning, and is registered
if it is a directory that is to be covered. -/
def Settled (plan : Plan) (root : Path) (r : Place) (fs₀ fs : FileSystem) (w : Work)
    (records : List Record) (p : Place) : Prop :=
  (fs₀.node? (p ++ r) = none → .created (root.under p) ∈ w.gathered records) ∧
    (Covers plan.scope fs root r p → w.coverage.isRegistered (root.under p) = true)

/-- The invariant of such a run: what is not settled is outstanding. -/
structure Watchful (plan : Plan) (root : Path) (r : Place) (fs₀ fs : FileSystem) (w : Work)
    (records : List Record) : Prop where
  clear : IsClear plan.scope fs root r
  running : w.loop.phase ≠ .stopped
  isOpen : w.loop.closed = false
  uncancelled : w.loop.cancelled = false
  /-- Only creations are told. -/
  waiting : ∀ notice ∈ w.loop.queue, ∃ p s, notice = .signal s ∧ s.Creates p
  sound : ∀ h, w.handling? = some h → h.IsSound
  registered : w.coverage.isRegistered root = true
  settled : ∀ p, Visible plan.scope fs root r p →
    Outstanding root w p ∨ Settled plan root r fs₀ fs w records p

theorem Announced.of_suffix {queue : List Notice} (h : Announced root queue q) (hs : q <:+ p) :
    Announced root queue p := by
  obtain ⟨q', hne, hs', hwaits⟩ := h
  exact ⟨q', hne, hs'.trans hs, hwaits⟩

theorem Announced.mono {queue queue' : List Notice} (h : Announced root queue p)
    (hsub : queue ⊆ queue') : Announced root queue' p := by
  obtain ⟨q, hne, hs, s, hcreates, hmem⟩ := h
  exact ⟨q, hne, hs, s, hcreates, hsub hmem⟩

theorem Outstanding.of_suffix (h : Outstanding root w q) (hs : q <:+ p) :
    Outstanding root w p :=
  h.imp (·.of_suffix hs) fun ⟨h, hhandling, howes⟩ => ⟨h, hhandling, howes.of_suffix hs⟩

/-! ### A step in one file system -/

/-- A step of the loop at work that lets nothing get lost. -/
structure Advances (plan : Plan) (root : Path) (r : Place) (fs : FileSystem) (w : Work)
    (records : List Record) (w' : Work) (records' : List Record) : Prop where
  queue : w'.loop.queue ⊆ w.loop.queue
  closed : w'.loop.closed = w.loop.closed
  cancelled : w'.loop.cancelled = w.loop.cancelled
  running : w.loop.phase ≠ .stopped → w'.loop.phase ≠ .stopped
  sound : ∀ h, w'.handling? = some h → h.IsSound
  directories : w.coverage.directories ⊆ w'.coverage.directories
  gathered : w.gathered records ⊆ w'.gathered records'
  settles : ∀ p, Visible plan.scope fs root r p → Outstanding root w p →
    Outstanding root w' p ∨ .created (root.under p) ∈ w'.gathered records' ∧
      (Covers plan.scope fs root r p → w'.coverage.isRegistered (root.under p) = true)

theorem Watchful.advance (h : Watchful plan root r fs₀ fs w records)
    (hadvances : Advances plan root r fs w records w' records') :
    Watchful plan root r fs₀ fs w' records' where
  clear := h.clear
  running := hadvances.running h.running
  isOpen := hadvances.closed.trans h.isOpen
  uncancelled := hadvances.cancelled.trans h.uncancelled
  waiting := fun notice hmem => h.waiting notice (hadvances.queue hmem)
  sound := hadvances.sound
  registered := Coverage.isRegistered_mono hadvances.directories h.registered
  settled := fun p hp => by
    rcases h.settled p hp with hout | ⟨hqueued, hregistered⟩
    · exact (hadvances.settles p hp hout).imp_right fun ⟨hqueued, hregistered⟩ =>
        ⟨fun _ => hqueued, hregistered⟩
    · exact .inr ⟨fun hnew => hadvances.gathered (hqueued hnew), fun hcovers =>
        Coverage.isRegistered_mono hadvances.directories (hregistered hcovers)⟩

/-- A step by which the loop neither takes in anything nor ends. -/
structure Keeps (l l' : Loop) : Prop where
  queue : l'.queue = l.queue
  closed : l'.closed = l.closed
  cancelled : l'.cancelled = l.cancelled
  directories : l'.intake.coverage.directories = l.intake.coverage.directories
  running : l.phase ≠ .stopped → l'.phase ≠ .stopped

theorem Watchful.keep (h : Watchful plan root r fs₀ fs w records) {l : Loop}
    (hkeeps : Keeps w.loop l) (more : List Record) :
    Watchful plan root r fs₀ fs { w with loop := l } (records ++ more) := by
  have hdirectories :
      w.coverage.directories ⊆ (coverage { w with loop := l }).directories := by
    rw [coverage, coverage]
    cases w.handling? with
    | none => exact fun d hd => hkeeps.directories.symm ▸ hd
    | some handling =>
      dsimp only
      rw [Handling.coverage, Handling.coverage]
      cases handling.errand? with
      | none => exact fun d hd => hkeeps.directories.symm ▸ hd
      | some errand => exact List.Subset.refl _
  have hgathered : w.gathered records ⊆ gathered { w with loop := l } (records ++ more) := by
    rw [gathered, gathered, List.flatMap_append]
    exact List.append_subset.mpr ⟨fun c hc => by simp [hc], List.subset_append_right _ _⟩
  exact h.advance
    { queue := hkeeps.queue ▸ List.Subset.refl _
      closed := hkeeps.closed
      cancelled := hkeeps.cancelled
      running := hkeeps.running
      sound := h.sound
      directories := hdirectories
      gathered := hgathered
      settles := fun p _ hout => .inl (hout.imp_left (·.mono (hkeeps.queue ▸ List.Subset.refl _))) }

private theorem keeps_answered (plan : Plan) (l : Loop) (accepted : Bool) :
    Keeps l (l.perform plan (.answer accepted)).1 := by
  rw [Loop.perform]
  split
  · split
    · exact ⟨rfl, rfl, rfl, rfl, id⟩
    · exact ⟨rfl, rfl, rfl, by cases accepted <;> rfl, fun _ hstopped => by cases hstopped⟩
  · exact ⟨rfl, rfl, rfl, rfl, id⟩

/-- A turn of the loop that handles no notice settles nothing. -/
private theorem keeps_step {l l' : Loop} {more : List Record} (hrunning : l.phase ≠ .stopped)
    (hopen : l.closed = false) (huncancelled : l.cancelled = false)
    (hhandles : ¬(l.phase = .waiting ∧ l.cancelled = false ∧ l.queue ≠ []))
    (hstep : Loop.Step plan l (.turn fs) (l', more)) : Keeps l l' := by
  cases hstep with
  | finished hphase => exact absurd hphase hrunning
  | busy | idle => exact ⟨rfl, rfl, rfl, rfl, id⟩
  | handled hphase hcancelled hqueue =>
    exact absurd ⟨hphase, hcancelled, hqueue ▸ List.cons_ne_nil _ _⟩ hhandles
  | flushed _ _ _ _ hflush =>
    rw [Intake.flush_eq, Prod.mk.injEq] at hflush
    obtain ⟨rfl, -⟩ := hflush
    exact ⟨rfl, rfl, rfl, rfl, id⟩
  | handed _ _ _ _ hflush =>
    rw [Intake.flush_eq, Prod.mk.injEq] at hflush
    obtain ⟨rfl, -⟩ := hflush
    exact ⟨rfl, rfl, rfl, rfl, fun _ hstopped => by cases hstopped⟩
  | stopped _ hended =>
    rcases hended with hcancelled | ⟨-, hclosed⟩
    · rw [huncancelled] at hcancelled
      cases hcancelled
    · rw [hopen] at hclosed
      cases hclosed
  | abandoned _ hcancelled =>
    rw [huncancelled] at hcancelled
    cases hcancelled

/-! ### Turns -/

/-- A step with the notice in hand passes by nothing. -/
private theorem advances_stepped {h h' : Handling} {i : Intake}
    (hlinks : plan.scope.followLinks = false) (hclear : IsClear plan.scope fs root r)
    (hhandling : w.handling? = some h) (hsound : h.IsSound)
    (hsteps : Handling.Steps plan fs w.loop.clock w.loop.intake h (some (i, h'))) :
    Advances plan root r fs w records
      { loop := { w.loop with intake := i }, handling? := some h' } (records ++ []) where
  queue := List.Subset.refl _
  closed := rfl
  cancelled := rfl
  running := id
  sound := fun _ heq => by
    cases heq
    exact hsteps.isSound hsound
  directories := by
    rw [coverage, hhandling]
    exact hsteps.subset_directories hsound
  gathered := by
    rw [gathered, gathered, hhandling, List.append_nil]
    exact List.append_subset.mpr ⟨List.subset_append_left _ _,
      List.subset_append_of_subset_right _ hsteps.subset_gathered⟩
  settles := fun p hp hout => by
    rcases hout with hannounced | ⟨h, heq, howes⟩
    · exact .inl (.inl hannounced)
    · cases hhandling.symm.trans heq
      rcases hsteps.settles hsound hclear hlinks hp howes with howes | ⟨hqueued, hregistered⟩
      · exact .inl (.inr ⟨h', rfl, howes⟩)
      · exact .inr ⟨List.mem_append_right _ hqueued, hregistered⟩

/-- When nothing is left to do, what was queued is recorded. -/
private theorem advances_finished {h : Handling} (hhandling : w.handling? = some h)
    (herrand : h.errand? = none) (hchanges : h.changes = []) :
    Advances plan root r fs w records { loop := w.loop }
      (records ++ [.handled h.notice h.queued h.time]) where
  queue := List.Subset.refl _
  closed := rfl
  cancelled := rfl
  running := id
  sound := fun _ heq => by cases heq
  directories := by
    rw [coverage, hhandling]
    dsimp only
    rw [Handling.coverage, herrand]
    exact List.Subset.refl _
  gathered := by
    rw [gathered, gathered, hhandling, List.flatMap_append, List.flatMap_singleton, Record.gathered,
      Option.elim, Handling.gathered, herrand, List.append_nil]
    exact List.subset_append_left _ _
  settles := fun p _ hout => by
    rcases hout with hannounced | ⟨h', heq, howes⟩
    · exact .inl (.inl hannounced)
    · cases hhandling.symm.trans heq
      exact absurd howes (Handling.not_owes_of_done herrand hchanges)

/-- When the loop begins with a notice, what this announced lies ahead. -/
private theorem advances_begun {s : Signal} {rest : List Notice} {path : Path}
    (hhandling : w.handling? = none) (hqueue : w.loop.queue = .signal s :: rest)
    (hcreates : s.Creates path) :
    Advances plan root r fs w records
      { loop := { w.loop with queue := rest }
        handling? := some
          { notice := .signal s, time := w.loop.clock, changes := [.created path] } }
      (records ++ []) where
  queue := hqueue ▸ List.subset_cons_self _ _
  closed := rfl
  cancelled := rfl
  running := id
  sound := fun _ heq => by
    cases heq
    refine ⟨fun change hmem => ⟨path, List.mem_singleton.mp hmem⟩, fun _ _ heq => by cases heq⟩
  directories := by
    rw [coverage, hhandling]
    exact List.Subset.refl _
  gathered := by
    rw [gathered, gathered, hhandling, List.append_nil]
    exact List.append_subset.mpr ⟨List.subset_append_left _ _, List.nil_subset _⟩
  settles := fun p _ hout => by
    rcases hout with ⟨q, hne, hs, s', hcreates', hmem⟩ | ⟨h, heq, -⟩
    · rw [hqueue] at hmem
      rcases List.mem_cons.mp hmem with heq | hmem
      · cases heq
        cases hcreates.unique hcreates'
        exact .inl (.inr ⟨_, rfl, .due hne hs (List.mem_singleton_self _)⟩)
      · exact .inl (.inl ⟨q, hne, hs, s', hcreates', hmem⟩)
    · cases hhandling.symm.trans heq

/-! ### An entry appears -/

private theorem hear_eq (hclosed : w.loop.closed = false) (hcancelled : w.loop.cancelled = false)
    (signals : List Signal) : w.hear plan signals =
      { w with loop := { w.loop with queue := w.loop.queue ++ signals.map .signal } } := by
  obtain ⟨l, handling?⟩ := w
  rw [hear, mk.injEq]
  refine ⟨?_, rfl⟩
  dsimp only at hclosed hcancelled ⊢
  induction signals generalizing l with
  | nil => simp
  | cons s signals ih =>
    have hmove : l.move plan (.outside (.arrive (.signal s))) =
        ({ l with queue := l.queue ++ [.signal s] }, []) := by
      rw [Loop.move, Loop.perform, if_neg (by simp [hclosed, hcancelled])]
    rw [List.map_cons, Loop.run_cons, hmove]
    refine (ih { l with queue := l.queue ++ [.signal s] } hclosed hcancelled).trans ?_
    rw [List.append_assoc, List.singleton_append, ← List.map_cons]

/-- If the directory around an entry is registered when it appears, then it is announced. If not,
that directory is outstanding itself. -/
theorem Watchful.appear (h : Watchful plan root r fs₀ fs w records) {signals : List Signal}
    (hmakes : (Alteration.appears q).Makes r fs fs') (hclear : IsClear plan.scope fs' root r)
    (htells : (Alteration.appears q).Tells root w.coverage signals) :
    Watchful plan root r fs₀ fs' (w.hear plan signals) records := by
  rw [hear_eq h.isOpen h.uncancelled]
  obtain ⟨hne, -, -⟩ := hmakes.taken q rfl
  have hcreates : ∀ s ∈ signals, s.Creates (root.under q) := fun s hs => by
    rcases htells.only s hs with ⟨p, hp, -⟩ | ⟨p, hp, -, hcreates⟩ | ⟨p, p', heq, -⟩
    · cases hp
    · cases hp
      exact hcreates
    · cases heq
  let w' : Work :=
    { w with loop := { w.loop with queue := w.loop.queue ++ signals.map .signal } }
  have hmono : ∀ {p : Place}, Outstanding root w p → Outstanding root w' p := fun hout =>
    hout.imp_left (·.mono (List.subset_append_left _ _))
  have hcoverage : w'.coverage = w.coverage := rfl
  -- The directory around the entry is registered, or it is outstanding with all that is in it.
  have haround : Covers plan.scope fs root r q.tail →
      w.coverage.isRegistered (root.under q.tail) = true ∨ Outstanding root w q.tail := by
    intro hcovers
    by_cases hroot : q.tail = []
    · rw [hroot]
      exact .inl h.registered
    · exact (h.settled _ (hcovers.visible hroot)).symm.imp_left fun hsettled => hsettled.2 hcovers
  have hinside : ∀ {p : Place}, q <:+ p → Covers plan.scope fs' root r q.tail →
      Outstanding root w' p := by
    intro p hs hcovers
    rcases haround ((hmakes.covers_around_taken_iff rfl).mp hcovers) with hseen | hout
    · obtain ⟨s, hmem, -⟩ := htells.taken q rfl hseen
      exact .inl ⟨q, hne, hs, s, hcreates s hmem,
        List.mem_append_right _ (List.mem_map_of_mem hmem)⟩
    · exact hmono (hout.of_suffix ((List.tail_suffix q).trans hs))
  have hleft : ∀ {p : Place}, ¬(Alteration.appears q).InLeft p := nofun
  have htaken : ∀ {p : Place}, ¬q <:+ p → ¬(Alteration.appears q).InTaken p := by
    rintro p hs ⟨q', hq', hs'⟩
    cases hq'
    exact hs hs'
  refine ⟨hclear, h.running, h.isOpen, h.uncancelled, ?_, h.sound, h.registered, ?_⟩
  · intro notice hmem
    rcases List.mem_append.mp hmem with hmem | hmem
    · exact h.waiting notice hmem
    · obtain ⟨s, hs, rfl⟩ := List.mem_map.mp hmem
      exact ⟨_, s, rfl, hcreates s hs⟩
  · intro p hp
    by_cases hs : q <:+ p
    · have htail : q.tail ≠ p := fun heq => Alteration.not_suffix_tail hne (heq ▸ hs)
      exact .inl (hinside hs (hp.covers_of_suffix ((List.tail_suffix q).trans hs) htail))
    · have hp := (hmakes.visible_iff hleft (htaken hs)).mp hp
      refine (h.settled p hp).imp hmono fun ⟨hqueued, hregistered⟩ => ⟨hqueued, fun hcovers => ?_⟩
      exact hregistered ((hmakes.covers_iff hleft (htaken hs)).mp hcovers)

/-- That more names are read does no harm. -/
theorem Watchful.list (h : Watchful plan root r fs₀ fs w records) {handling : Handling}
    {change : Change} {walk : Coverage.Walk} {waiting : List Path} {dir : Path}
    {names names' : List Name} (hhandling : w.handling? = some handling)
    (herrand : handling.errand? = some (change, .examining walk waiting dir names))
    (hmore : names ⊆ names') :
    Watchful plan root r fs₀ fs
      { w with
        handling? := some
          { handling with errand? := some (change, .examining walk waiting dir names') } }
      records := by
  have hsame : handling.gathered = Handling.gathered
      { handling with errand? := some (change, .examining walk waiting dir names') } := by
    rw [Handling.gathered, Handling.gathered, herrand]
    rfl
  refine h.advance ⟨List.Subset.refl _, rfl, rfl, id, fun _ heq => ?_, ?_, ?_, ?_⟩
  · cases heq
    refine ⟨(h.sound _ hhandling).created, fun _ _ heq d hd => ?_⟩
    cases heq
    rw [← hsame]
    exact (h.sound _ hhandling).waiting _ _ herrand d hd
  · rw [coverage, hhandling]
    dsimp only
    rw [Handling.coverage, herrand]
    exact List.Subset.refl _
  · rw [gathered, gathered, hhandling, Option.elim, Option.elim, hsame]
    exact List.Subset.refl _
  · rintro p - (hannounced | ⟨_, heq, howes⟩)
    · exact .inl (.inl hannounced)
    · cases hhandling.symm.trans heq
      refine .inl (.inr ⟨_, rfl, ?_⟩)
      cases howes with
      | due hne hs hmem => exact .due hne hs hmem
      | ahead herrand' hahead =>
        cases herrand.symm.trans herrand'
        refine .ahead rfl (hahead.imp_right ?_)
        rintro ⟨name, q, hs, hdir, hname⟩
        exact ⟨name, q, hs, hdir, hmore hname⟩

/-! ### Whole runs -/

section Run

variable (hlinks : plan.scope.followLinks = false) (hpolicy : plan.policy = Backend.acceptAll)
include hlinks hpolicy

/-- A turn keeps the invariant. -/
theorem Watchful.turn (h : Watchful plan root r fs₀ fs w records) {more : List Record}
    (hturns : w.Turns plan fs (w', more)) :
    Watchful plan root r fs₀ fs w' (records ++ more) := by
  cases hturns with
  | @stepped handling handling' i hhandling hstep =>
    have hsteps := Handling.steps_step hlinks hpolicy fs w.loop.clock w.loop.intake handling
    rw [hstep] at hsteps
    exact h.advance (advances_stepped hlinks h.clear hhandling (h.sound _ hhandling) hsteps)
  | @finished handling hhandling hstep =>
    have hsteps := Handling.steps_step hlinks hpolicy fs w.loop.clock w.loop.intake handling
    rw [hstep] at hsteps
    cases hsteps with
    | done herrand hchanges => exact h.advance (advances_finished hhandling herrand hchanges)
  | @begun notice rest hhandling hqueue =>
    obtain ⟨path, s, rfl, hs⟩ := h.waiting notice (by rw [hqueue]; exact List.mem_cons_self)
    rw [Handling.begin_creates plan fs _ _ hs]
    exact h.advance (advances_begun hhandling hqueue hs)
  | other hhandling hhandles hstep =>
    have hkeeps := keeps_step h.running h.isOpen h.uncancelled hhandles hstep
    have hkept := h.keep hkeeps more
    rwa [hhandling] at hkept

/-- The invariant holds throughout. -/
theorem Unfolds.watchful (h : Unfolds plan root r fs₀ fs w records) :
    Watchful plan root r fs₀ fs w records := by
  induction h with
  | started hclear =>
    have hexact := Coverage.isExact_registerRoot hclear hlinks
    rw [← hpolicy] at hexact
    have hregistered : ∀ p, Covers plan.scope fs₀ root r p → ((Coverage.registerRoot fs₀ plan.scope
        plan.policy {} root).1.isRegistered (root.under p)) = true := fun p hp =>
      (hexact.isRegistered_iff (fun _ => Covers.isProper) hp.isProper).mpr hp
    generalize (Coverage.registerRoot fs₀ plan.scope plan.policy {} root).1 = c at hregistered ⊢
    have hnone : ∀ h : Handling, (none : Option Handling) = some h → h.IsSound :=
      fun _ heq => by cases heq
    refine ⟨hclear, nofun, rfl, rfl, nofun, hnone, hregistered [] trivial, fun p hp => .inr ?_⟩
    refine ⟨fun hnew => ?_, hregistered p⟩
    cases p with
    | nil => exact hp.elim
    | cons name p =>
      have hsome := hp.2.1
      rw [hnew] at hsome
      cases hsome
  | appeared _ hmakes hclear htells ih => exact ih.appear hmakes hclear htells
  | listed _ hhandling herrand _ hmore _ ih => exact ih.list hhandling herrand hmore.subset
  | turned _ hturn ih => exact ih.turn hlinks hpolicy (turns_of_turn hturn)
  | @advanced _ w _ milliseconds _ ih =>
    have hkeeps : Keeps w.loop (w.loop.perform plan (.advance milliseconds)).1 :=
      ⟨rfl, rfl, rfl, rfl, id⟩
    exact ih.keep hkeeps _
  | @answered _ w _ accepted _ ih => exact ih.keep (keeps_answered plan w.loop accepted) _

end Run

/-- **Nothing that appears is missed.** Links are not followed and the watcher refuses nothing.
Entries may appear at any time, also while a walk goes on. Whenever the queue is empty and no notice
is in hand, every entry that was not there when the root was registered, is not ignored and lies in
a directory that is to be covered was queued as created, and every directory that is to be covered
is registered. -/
theorem discovers (hlinks : plan.scope.followLinks = false)
    (hpolicy : plan.policy = Backend.acceptAll) (h : Unfolds plan root r fs₀ fs w records)
    (hqueue : w.loop.queue = []) (hhandling : w.handling? = none) :
    (∀ p, Visible plan.scope fs root r p → fs₀.node? (p ++ r) = none →
      .created (root.under p) ∈ records.flatMap Record.gathered) ∧
    ∀ p, Covers plan.scope fs root r p →
      w.loop.intake.coverage.isRegistered (root.under p) = true := by
  have hwatchful := h.watchful hlinks hpolicy
  have hsettled : ∀ p, Visible plan.scope fs root r p →
      Settled plan root r fs₀ fs w records p := fun p hp => by
    refine (hwatchful.settled p hp).resolve_left ?_
    rintro (⟨q, -, -, s, -, hmem⟩ | ⟨h, heq, -⟩)
    · rw [hqueue] at hmem
      cases hmem
    · cases hhandling.symm.trans heq
  have hcoverage : w.coverage = w.loop.intake.coverage := by rw [coverage, hhandling]
  have hgathered : w.gathered records = records.flatMap Record.gathered := by
    rw [gathered, hhandling, Option.elim, List.append_nil]
  rw [← hcoverage, ← hgathered]
  refine ⟨fun p hp hnew => (hsettled p hp).1 hnew, fun p hp => ?_⟩
  cases p with
  | nil => exact hwatchful.registered
  | cons name p => exact (hsettled _ (hp.visible (List.cons_ne_nil name p))).2 hp

/-- In `/w` a directory `d` appears. The loop takes a turn for its notice and one for its creation,
and then a file `f` appears in `d`, of which nothing is told. Two steps of the walk register the
directory and read it. Then a file `g` appears in `d`, which is not among the names that were read,
and it is told. -/
theorem discovers_untold : ∃ fs w records,
    Unfolds { window := 100 } Coverage.sampleRoot [[119]] Coverage.sampleTree fs w records ∧
      w.loop.queue = [] ∧ w.handling? = none ∧
      .created (Coverage.sampleRoot.under [[102], [100]]) ∈ records.flatMap Record.gathered ∧
      .created (Coverage.sampleRoot.under [[103], [100]]) ∈ records.flatMap Record.gathered ∧
      w.loop.intake.coverage.isRegistered (Coverage.sampleRoot.under [[100]]) = true := by
  let withFile : FileSystem := Coverage.grownTree.insert [[100], [119]] [102] (.file "")
  let withFiles : FileSystem := withFile.insert [[100], [119]] [103] (.file "")
  have hfile : IsClear {} withFile Coverage.sampleRoot [[119]] :=
    .of_entries (by decide) (by decide) (by decide)
  have hfiles : IsClear {} withFiles Coverage.sampleRoot [[119]] :=
    .of_entries (by decide) (by decide) (by decide)
  have hstarted : Unfolds { window := 100 } Coverage.sampleRoot [[119]] Coverage.sampleTree _ _ _ :=
    .started Coverage.isClear_sampleTree
  have htold := hstarted.appeared
    (Alteration.makes_insert (r := [[119]]) (p := []) (by decide) (.directory {}))
    Coverage.isClear_grownTree (Alteration.tells_appears (by decide +kernel) (.create .folder))
  have huntold := (htold.run 2).appeared
    (Alteration.makes_insert (r := [[119]]) (p := [[100]]) (by decide) (.file "")) hfile
    (Alteration.tells_appears_nil (by decide +kernel))
  have hafter := (huntold.run 2).appeared
    (Alteration.makes_insert (r := [[119]]) (p := [[100]]) (by decide) (.file "")) hfiles
    (Alteration.tells_appears (by decide +kernel) (.create .file))
  have hend := hafter.run 8
  obtain ⟨hcreated, hregistered⟩ :=
    discovers rfl rfl hend (by decide +kernel) (by decide +kernel)
  have hcovers : Covers {} withFiles Coverage.sampleRoot [[119]] [[100]] :=
    ⟨trivial, by decide, rfl⟩
  refine ⟨_, _, _, hend, by decide +kernel, by decide +kernel, hcreated _ ?_ (by decide),
    hcreated _ ?_ (by decide), hregistered _ hcovers⟩
  · exact ⟨hcovers, by decide, rfl⟩
  · exact ⟨hcovers, by decide, rfl⟩

end Work

end WorkspaceWatch
