import WorkspaceWatch.Watch.Intake
import WorkspaceWatch.Proofs.Coverage.Alteration

/-!
# Exact coverage

The coverage is **exact** if the registered directories are the ones that are to be covered
(`Coverage.IsExact`). It is exact after the root was registered, and it stays exact: an alteration
makes it inexact, and taking in the signals that tell of it makes it exact again.

In between it is known at each signal what is registered: what is to be covered now, as far as the
side that is taken was told, and what was covered within the side that is left, as long as that was
not told (`Coverage.Amid`). Because the two sides lie apart, it does not matter in which order they
are told, nor how often.
-/

namespace WorkspaceWatch

/-! ### Absorbing one change -/

namespace Intake

variable {plan : Plan} {fs : FileSystem} {c : Coverage} {p : Path}

theorem absorb_of_ignores (change : Change)
    (h : plan.scope.ignore.ignores change.path = true) :
    absorb plan fs c change = (c.record .eventIgnored, []) := by
  rw [absorb, if_pos h]

theorem absorb_created (h : plan.scope.ignore.ignores p = false) :
    absorb plan fs c (.created p) =
      if plan.scope.enters fs p then
        (((c.record .eventObserved).registerCreated fs plan.scope plan.policy p).1,
          .created p ::
            ((c.record .eventObserved).registerCreated fs plan.scope plan.policy p).2.map .created)
      else (c.record .eventObserved, [.created p]) := by
  rw [absorb, if_neg (by simpa [Change.created] using h)]
  rfl

theorem absorb_deleted (h : plan.scope.ignore.ignores p = false) :
    absorb plan fs c (.deleted p) =
      if c.isRegistered p then (((c.record .eventObserved).unregister p).1, [.deleted p])
      else (c.record .eventObserved, [.deleted p]) := by
  rw [absorb, if_neg (by simpa [Change.deleted] using h)]
  rfl

theorem absorbAll_append (changes rest : List Change) :
    (absorbAll plan fs c (changes ++ rest)).1 =
      (absorbAll plan fs (absorbAll plan fs c changes).1 rest).1 := by
  induction changes generalizing c with
  | nil => rfl
  | cons change changes ih => exact ih

/-- Takes in signals in order, each at its time. -/
def handleAll (plan : Plan) (fs : FileSystem) (i : Intake) (signals : List (Nat × Signal)) :
    Intake :=
  signals.foldl (fun i s => (i.handle plan fs s.1 (.signal s.2)).1) i

/-- Signals that report no loss are absorbed as the changes that they are read as. -/
theorem coverage_handleAll {i : Intake} {signals : List (Nat × Signal)}
    (h : ∀ s ∈ signals.map Prod.snd, s.rescan = false) :
    (i.handleAll plan fs signals).coverage =
      (absorbAll plan fs i.coverage ((signals.map Prod.snd).flatMap (·.changes fs))).1 := by
  induction signals generalizing i with
  | nil => rfl
  | cons s signals ih =>
    rw [List.map_cons] at h
    have hs : s.2.rescan = false := h _ List.mem_cons_self
    have hhead : (i.handle plan fs s.1 (.signal s.2)).1.coverage =
        (absorbAll plan fs i.coverage (s.2.changes fs)).1 := by
      simp [handle, hs]
    rw [handleAll, List.foldl_cons, ← handleAll, ih fun t ht => h t (List.mem_cons_of_mem _ ht),
      hhead, List.map_cons, List.flatMap_cons, absorbAll_append]

end Intake

namespace Coverage

variable {scope : Scope} {fs fs' : FileSystem} {root : Path} {r p q : Place} {c c' : Coverage}
  {R R' : Place → Prop}

/-- The registered directories are those at the places `R` below the root, spelled as a walk spells
them. -/
def Holds (c : Coverage) (root : Path) (R : Place → Prop) : Prop :=
  ∀ d, d ∈ c.directories ↔ ∃ p, R p ∧ root.under p = d

/-- The registered directories are exactly those that are to be covered. -/
def IsExact (scope : Scope) (fs : FileSystem) (root : Path) (r : Place) (c : Coverage) : Prop :=
  c.Holds root (Covers scope fs root r)

theorem Holds.congr (h : c.Holds root R) (hR : ∀ p, R p ↔ R' p) : c.Holds root R' := fun d => by
  rw [h d]
  exact exists_congr fun p => and_congr_left' (hR p)

theorem Holds.isRegistered_iff (h : c.Holds root R) (hproper : ∀ p, R p → p.IsProper)
    (hq : q.IsProper) : c.isRegistered (root.under q) = true ↔ R q := by
  rw [Coverage.isRegistered_iff]
  constructor
  · rintro ⟨d, hd, hsame⟩
    obtain ⟨p, hp, rfl⟩ := (h d).mp hd
    rwa [← (Path.same_under_iff root (hproper p hp) hq).mp hsame]
  · exact fun hRq => ⟨_, (h _).mpr ⟨q, hRq, rfl⟩, Path.same_refl _⟩

/-- Sweeping the tree at `q` adds what is to be covered there. -/
theorem Swept.holds {found : List Path} (h : Swept scope fs (root.under q) (q ++ r) c c' found)
    (hq : Covers scope fs root r q) (hc : c.Holds root R) (hproper : ∀ p, R p → p.IsProper) :
    c'.Holds root fun x => R x ∨ Covers scope fs root r x ∧ q <:+ x := by
  have hunion : ∀ x, R x ∨ Covers scope fs root r x ∧ q <:+ x → x.IsProper := fun x hx =>
    hx.elim (hproper x) fun hx => hx.1.isProper
  have horigin : ∀ d ∈ c'.directories,
      ∃ x, (R x ∨ Covers scope fs root r x ∧ q <:+ x) ∧ root.under x = d := fun d hd => by
    rcases h.origin d hd with hd | ⟨x, hx, rfl⟩
    · obtain ⟨x, hx, rfl⟩ := (hc d).mp hd
      exact ⟨x, .inl hx, rfl⟩
    · exact ⟨x ++ q, .inr ⟨covers_append.mpr ⟨hq, hx⟩, List.suffix_append x q⟩,
        Path.under_append root x q⟩
  refine fun d => ⟨horigin d, ?_⟩
  rintro ⟨x, hx | ⟨hx, pre, rfl⟩, rfl⟩
  · exact h.kept ((hc _).mpr ⟨x, hx, rfl⟩)
  · -- What is registered under this path is spelled like it.
    have hregistered := h.registered pre (covers_append.mp hx).2
    rw [← Path.under_append, Coverage.isRegistered_iff] at hregistered
    obtain ⟨d, hd, hsame⟩ := hregistered
    obtain ⟨x, hx', rfl⟩ := horigin d hd
    rwa [(Path.same_under_iff root (hunion x hx') hx.isProper).mp hsame] at hd

/-- After the root was registered, the coverage is exact. -/
theorem isExact_registerRoot (hclear : IsClear scope fs root r)
    (hlinks : scope.followLinks = false) :
    IsExact scope fs root r (registerRoot fs scope Backend.acceptAll {} root).1 := by
  obtain ⟨count, found, -, hswept⟩ := swept_registerRoot hclear hlinks {}
  have hnone : Holds {} root fun _ => False := fun d => by simp
  have hholds := Swept.holds (q := []) hswept trivial hnone fun _ => False.elim
  exact hholds.congr fun p => by simp

/-! ### While an alteration is told -/

/-- What is registered while an alteration is told that turned `fs` into `fs'`. What was covered
within the side that is left is still registered if `kept`, and what is to be covered within the
side that is taken is registered already if `added`. -/
def Amid (scope : Scope) (fs fs' : FileSystem) (root : Path) (r : Place) (a : Alteration)
    (kept added : Prop) (x : Place) : Prop :=
  Covers scope fs' root r x ∧ (a.InTaken x → added) ∨
    Covers scope fs root r x ∧ a.InLeft x ∧ kept

section Told

variable {a : Alteration} {kept added : Prop} {x : Place} (h : a.Makes r fs fs')

theorem Amid.isProper (hx : Amid scope fs fs' root r a kept added x) : x.IsProper :=
  hx.elim (·.1.isProper) (·.1.isProper)

include h

/-- Before anything is told, what is registered is what was to be covered before. -/
theorem amid_before : Amid scope fs fs' root r a True False x ↔ Covers scope fs root r x := by
  constructor
  · rintro (⟨hx, htaken⟩ | ⟨hx, -⟩)
    · by_cases hleft : a.InLeft x
      · by_cases hne : x = []
        · exact hne ▸ trivial
        · exact absurd hx (h.not_covers_of_inLeft hleft hne)
      · exact (h.covers_iff hleft htaken).mp hx
    · exact hx
  · intro hx
    by_cases hleft : a.InLeft x
    · exact .inr ⟨hx, hleft, trivial⟩
    · have htaken : ¬a.InTaken x := fun htaken => by
        cases x with
        | nil =>
          obtain ⟨q, hq, hs⟩ := htaken
          exact (h.taken q hq).1 (List.suffix_nil.mp hs)
        | cons name x =>
          have hdir := hx.2.1
          rw [FileSystem.HasDirectory, h.node?_of_inTaken htaken] at hdir
          cases hdir
      exact .inl ⟨(h.covers_iff hleft htaken).mpr hx, htaken⟩

/-- Once every side that is seen has been told, what is registered is what is to be covered now. -/
theorem amid_after (hkept : ∀ p, a.left? = some p → Covers scope fs root r p.tail → ¬kept)
    (hadded : ∀ q, a.taken? = some q → Covers scope fs root r q.tail → added) :
    Amid scope fs fs' root r a kept added x ↔ Covers scope fs' root r x := by
  constructor
  · rintro (⟨hx, -⟩ | ⟨hx, ⟨p, hp, hs⟩, hstill⟩)
    · exact hx
    · have haround := hx.of_suffix ((List.tail_suffix p).trans hs)
      exact absurd hstill (hkept p hp haround)
  · intro hx
    refine .inl ⟨hx, ?_⟩
    rintro ⟨q, hq, hs⟩
    have haround := hx.of_suffix ((List.tail_suffix q).trans hs)
    exact hadded q hq ((h.covers_around_taken_iff hq).mp haround)

private theorem amid_lost (hp : a.left? = some p) : Amid scope fs fs' root r a False added x ↔
    Amid scope fs fs' root r a kept added x ∧ ¬p <:+ x := by
  have hinLeft : a.InLeft x ↔ p <:+ x := by
    constructor
    · rintro ⟨p', hp', hs⟩
      rwa [Option.some.inj (hp.symm.trans hp')] at *
    · exact fun hs => ⟨p, hp, hs⟩
  constructor
  · rintro (⟨hx, htaken⟩ | ⟨-, -, hfalse⟩)
    · refine ⟨.inl ⟨hx, htaken⟩, fun hs => ?_⟩
      have hne : x ≠ [] := fun hnil => (h.left p hp).1 (List.suffix_nil.mp (hnil ▸ hs))
      exact h.not_covers_of_inLeft (hinLeft.mpr hs) hne hx
    · exact hfalse.elim
  · rintro ⟨⟨hx, htaken⟩ | ⟨-, hleft, -⟩, hs⟩
    · exact .inl ⟨hx, htaken⟩
    · exact absurd (hinLeft.mp hleft) hs

omit h in
private theorem amid_gained (hq : a.taken? = some q) : Amid scope fs fs' root r a kept True x ↔
    Amid scope fs fs' root r a kept added x ∨ Covers scope fs' root r x ∧ q <:+ x := by
  constructor
  · rintro (⟨hx, -⟩ | hx)
    · by_cases hs : q <:+ x
      · exact .inr ⟨hx, hs⟩
      · refine .inl (.inl ⟨hx, ?_⟩)
        rintro ⟨q', hq', hs'⟩
        exact absurd (Option.some.inj (hq.symm.trans hq') ▸ hs') hs
    · exact .inl (.inr hx)
  · rintro ((⟨hx, -⟩ | hx) | ⟨hx, -⟩)
    · exact .inl ⟨hx, fun _ => trivial⟩
    · exact .inr hx
    · exact .inl ⟨hx, fun _ => trivial⟩

variable {plan : Plan} (hclear : IsClear plan.scope fs' root r)
  (hlinks : plan.scope.followLinks = false) (hpolicy : plan.policy = Backend.acceptAll)

/-- Taking in that the side that is left is gone. -/
theorem Holds.absorb_deleted (hp : a.left? = some p)
    (hc : c.Holds root (Amid plan.scope fs fs' root r a kept added)) :
    (Intake.absorb plan fs' c (.deleted (root.under p))).1.Holds root
      (Amid plan.scope fs fs' root r a False added) := by
  have hproper := h.isProper_left hp
  have hinside : ∀ x, Amid plan.scope fs fs' root r a kept added x → p <:+ x →
      Covers plan.scope fs root r p ∧ kept := by
    rintro x (⟨hx, -⟩ | ⟨hx, -, hstill⟩) hs
    · have hne : x ≠ [] := fun hnil => (h.left p hp).1 (List.suffix_nil.mp (hnil ▸ hs))
      exact absurd hx (h.not_covers_of_inLeft ⟨p, hp, hs⟩ hne)
    · exact ⟨hx.of_suffix hs, hstill⟩
  have hlost : ∀ x, Amid plan.scope fs fs' root r a False added x ↔
      Amid plan.scope fs fs' root r a kept added x ∧ ¬p <:+ x := fun _ => amid_lost h hp
  -- Unless the directory is registered, nothing within it is.
  have hnothing : (∀ x, Amid plan.scope fs fs' root r a kept added x → ¬p <:+ x) →
      c.Holds root (Amid plan.scope fs fs' root r a False added) := fun hnone =>
    hc.congr fun x => by
      rw [hlost]
      exact ⟨fun hx => ⟨hx, hnone x hx⟩, And.left⟩
  by_cases hignored : plan.scope.ignore.ignores (root.under p) = true
  · rw [Intake.absorb_of_ignores (.deleted _) hignored]
    refine hnothing fun x hx hs => ?_
    rw [(hinside x hx hs).1.ignores_eq_false (h.left p hp).1] at hignored
    cases hignored
  · rw [Intake.absorb_deleted (by simpa using hignored)]
    split
    · next hregistered =>
      intro d
      rw [mem_directories_unregister]
      refine (and_congr_left' (hc d)).trans ?_
      constructor
      · rintro ⟨⟨x, hx, rfl⟩, hwithin⟩
        rw [Path.within_under_iff root hx.isProper hproper] at hwithin
        exact ⟨x, (hlost x).mpr ⟨hx, hwithin⟩, rfl⟩
      · rintro ⟨x, hx, rfl⟩
        obtain ⟨hx, hs⟩ := (hlost x).mp hx
        refine ⟨⟨x, hx, rfl⟩, ?_⟩
        rwa [Path.within_under_iff root hx.isProper hproper]
    · next hregistered =>
      refine hnothing fun x hx hs => hregistered ?_
      obtain ⟨hcovers, hstill⟩ := hinside x hx hs
      refine (hc.isRegistered_iff (fun _ => Amid.isProper) hproper).mpr ?_
      exact .inr ⟨hcovers, ⟨p, hp, List.suffix_rfl⟩, hstill⟩

include hclear hlinks hpolicy

/-- Taking in that the side that is taken was created, in a directory that is to be covered. -/
theorem Holds.absorb_created (hq : a.taken? = some q)
    (haround : Covers plan.scope fs' root r q.tail)
    (hc : c.Holds root (Amid plan.scope fs fs' root r a kept added)) :
    (Intake.absorb plan fs' c (.created (root.under q))).1.Holds root
      (Amid plan.scope fs fs' root r a kept True) := by
  obtain ⟨hne, -, hsome⟩ := h.taken q hq
  have hgained : ∀ x, Amid plan.scope fs fs' root r a kept True x ↔
      Amid plan.scope fs fs' root r a kept added x ∨ Covers plan.scope fs' root r x ∧ q <:+ x :=
    fun _ => amid_gained hq
  -- Unless the new entry is to be covered, nothing within it is.
  have hnothing : ¬Covers plan.scope fs' root r q →
      c.Holds root (Amid plan.scope fs fs' root r a kept True) := fun hnone =>
    hc.congr fun x => by
      rw [hgained]
      exact ⟨.inl, fun hx => hx.elim id fun hx => absurd (hx.1.of_suffix hx.2) hnone⟩
  by_cases hignored : plan.scope.ignore.ignores (root.under q) = true
  · rw [Intake.absorb_of_ignores (.created _) hignored]
    refine hnothing fun hcovers => ?_
    rw [hcovers.ignores_eq_false hne] at hignored
    cases hignored
  · have hkept : plan.scope.ignore.ignores (root.under q) = false := by simpa using hignored
    have hvisible : Visible plan.scope fs' root r q := by
      cases q with
      | nil => exact absurd rfl hne
      | cons name q => exact ⟨haround, hsome, hkept⟩
    have henters := hclear.enters_iff hlinks hvisible
    rw [Intake.absorb_created hkept]
    split
    · next hdir =>
      have hcovers := henters.mp hdir
      rw [hpolicy]
      have hswept := swept_registerCreated (hclear.below hcovers) hlinks (c.record .eventObserved)
      exact (hswept.holds hcovers hc fun _ => Amid.isProper).congr fun x => (hgained x).symm
    · next hdir => exact hnothing fun hcovers => hdir (henters.mpr hcovers)

/-- Taking in changes of the two sides, when the directory around the side that is taken is to be
covered. -/
theorem Holds.absorbAll {c₀ : Coverage} {changes : List Change}
    (hsides : ∀ change ∈ changes, a.IsLoss root c₀ change ∨ a.IsGain root c₀ change)
    (haround : ∀ q, a.taken? = some q → Alteration.Seen c₀ root q →
      Covers plan.scope fs' root r q.tail)
    (hc : c.Holds root (Amid plan.scope fs fs' root r a kept added)) :
    ∃ kept' added' : Prop,
      (Intake.absorbAll plan fs' c changes).1.Holds root
        (Amid plan.scope fs fs' root r a kept' added') ∧
      (kept' → kept ∧ ∀ change ∈ changes, ¬a.IsLoss root c₀ change) ∧
      ((added ∨ ∃ change ∈ changes, a.IsGain root c₀ change) → added') := by
  -- What is still kept and what is added already moves with each change that is absorbed.
  induction changes generalizing c kept added with
  | nil => exact ⟨kept, added, hc, fun hk => ⟨hk, by simp⟩, by simp⟩
  | cons change changes ih =>
    have hrest := fun other hother => hsides other (List.mem_cons_of_mem _ hother)
    rcases hsides change List.mem_cons_self with hloss | hgain
    · obtain ⟨p, hp, -, rfl⟩ := hloss
      obtain ⟨kept', added', hholds, hkept, hadded⟩ := ih hrest (hc.absorb_deleted h hp)
      refine ⟨kept', added', hholds, fun hk => (hkept hk).1.elim, ?_⟩
      rintro (hadd | ⟨other, hother, hgain⟩)
      · exact hadded (.inl hadd)
      · rcases List.mem_cons.mp hother with rfl | hother
        · obtain ⟨q, -, -, heq⟩ := hgain
          cases congrArg Change.kind heq
        · exact hadded (.inr ⟨other, hother, hgain⟩)
    · obtain ⟨q, hq, hseen, rfl⟩ := hgain
      obtain ⟨kept', added', hholds, hkept, hadded⟩ :=
        ih hrest (hc.absorb_created h hclear hlinks hpolicy hq (haround q hq hseen))
      refine ⟨kept', added', hholds, fun hk => ⟨(hkept hk).1, ?_⟩, fun _ => hadded (.inl trivial)⟩
      intro other hother hloss
      rcases List.mem_cons.mp hother with rfl | hother
      · obtain ⟨p, -, -, heq⟩ := hloss
        cases congrArg Change.kind heq
      · exact (hkept hk).2 other hother hloss

/-- Taking in the changes that tell of an alteration makes an exact coverage exact again. -/
theorem IsExact.absorbAll {signals : List Signal} (hc : IsExact plan.scope fs root r c)
    (htells : a.Tells root c signals) :
    IsExact plan.scope fs' root r
      (Intake.absorbAll plan fs' c (signals.flatMap (·.changes fs'))).1 := by
  have hseen : ∀ {p : Place}, p.IsProper →
      (Alteration.Seen c root p ↔ Covers plan.scope fs root r p.tail) := fun hproper =>
    hc.isRegistered_iff (fun _ => Covers.isProper) hproper.tail
  have hstart : c.Holds root (Amid plan.scope fs fs' root r a True False) :=
    hc.congr fun x => (amid_before h).symm
  have haround : ∀ q, a.taken? = some q → Alteration.Seen c root q →
      Covers plan.scope fs' root r q.tail := fun q hq hq' =>
    (h.covers_around_taken_iff hq).mpr ((hseen (h.isProper_taken hq)).mp hq')
  obtain ⟨kept, added, hholds, hkept, hadded⟩ := hstart.absorbAll h hclear hlinks hpolicy
    (fun change hchange => htells.isLoss_or_isGain fs' hchange) haround
  refine hholds.congr fun x => amid_after h ?_ ?_
  · intro p hp hcovers hstill
    have hp' := (hseen (h.isProper_left hp)).mpr hcovers
    exact (hkept hstill).2 _ (htells.deleted_mem fs' hp hp') ⟨p, hp, hp', rfl⟩
  · intro q hq hcovers
    have hq' := (hseen (h.isProper_taken hq)).mpr hcovers
    exact hadded (.inr ⟨_, htells.created_mem fs' hq hq', q, hq, hq', rfl⟩)

end Told

end Coverage

/-! ### Whole runs -/

/-- A watch that was tended: the root was registered, and every alteration since then was told and
taken in before the next one. -/
inductive Intake.Tended (plan : Plan) (root : Path) (r : Place) : FileSystem → Intake → Prop
  | registered {fs : FileSystem} {i : Intake} (clear : Coverage.IsClear plan.scope fs root r)
      (coverage : i.coverage = (Coverage.registerRoot fs plan.scope plan.policy {} root).1) :
      Tended plan root r fs i
  | altered {fs fs' : FileSystem} {i : Intake} {a : Alteration} {signals : List (Nat × Signal)}
      (before : Tended plan root r fs i) (makes : a.Makes r fs fs')
      (clear : Coverage.IsClear plan.scope fs' root r)
      (tells : a.Tells root i.coverage (signals.map Prod.snd)) :
      Tended plan root r fs' (i.handleAll plan fs' signals)

namespace Coverage

/-- **The coverage stays exact.** Links are not followed and the watcher refuses nothing. If exactly
the directories that are to be covered are registered, then so it is again after any alteration,
once the signals that tell of it have been taken in; and so it is throughout the life of a watch
that was tended since its root was registered. -/
theorem stays_exact (plan : Plan) (root : Path) (r : Place)
    (hlinks : plan.scope.followLinks = false) (hpolicy : plan.policy = Backend.acceptAll) :
    (∀ {fs fs' : FileSystem} {i : Intake} {a : Alteration} {signals : List (Nat × Signal)},
      IsExact plan.scope fs root r i.coverage → a.Makes r fs fs' →
      IsClear plan.scope fs' root r → a.Tells root i.coverage (signals.map Prod.snd) →
      IsExact plan.scope fs' root r (i.handleAll plan fs' signals).coverage) ∧
    ∀ {fs : FileSystem} {i : Intake}, Intake.Tended plan root r fs i →
      IsExact plan.scope fs root r i.coverage := by
  have step : ∀ {fs fs' : FileSystem} {i : Intake} {a : Alteration}
      {signals : List (Nat × Signal)}, IsExact plan.scope fs root r i.coverage →
      a.Makes r fs fs' → IsClear plan.scope fs' root r →
      a.Tells root i.coverage (signals.map Prod.snd) →
      IsExact plan.scope fs' root r (i.handleAll plan fs' signals).coverage := by
    intro fs fs' i a signals hexact hmakes hclear htells
    rw [Intake.coverage_handleAll fun s hs => htells.rescan hs]
    exact hexact.absorbAll hmakes hclear hlinks hpolicy htells
  refine ⟨step, fun htended => ?_⟩
  induction htended with
  | registered hclear hcoverage =>
    rw [hcoverage, hpolicy]
    exact isExact_registerRoot hclear hlinks
  | altered _ hmakes hclear htells ih => exact step ih hmakes hclear htells

/-! ### A run

A directory `d` appears in the empty tree `/w` and is then renamed to `e`. -/

/-- The path `/w`. -/
def sampleRoot : Path := ⟨[slash, 119]⟩

/-- The empty tree `/w`. -/
def sampleTree : FileSystem := FileSystem.empty.insert [] [119] (.directory {})

/-- The tree with `/w/d`. -/
def grownTree : FileSystem := sampleTree.insert [[119]] [100] (.directory {})

/-- The tree with `/w/e`. -/
def renamedTree : FileSystem := grownTree.moveTree [[100], [119]] [[119]] [101]

theorem isClear_sampleTree : IsClear {} sampleTree sampleRoot [[119]] :=
  .of_entries (by decide) (by decide) (by decide)

theorem isClear_grownTree : IsClear {} grownTree sampleRoot [[119]] :=
  .of_entries (by decide) (by decide) (by decide)

/-- Both parts of `stays_exact` at such a run: the first for its rename, the second for all of
it. -/
theorem stays_exact_renamed : ∃ i : Intake,
    Intake.Tended { window := 100 } sampleRoot [[119]] renamedTree i ∧
      IsExact {} renamedTree sampleRoot [[119]] i.coverage ∧
      i.coverage.directories = [sampleRoot, sampleRoot.under [[101]]] := by
  have hrenamed : IsClear {} renamedTree sampleRoot [[119]] :=
    .of_entries (by decide) (by decide) (by decide)
  let begun : Intake :=
    { coverage := (registerRoot sampleTree {} Backend.acceptAll {} sampleRoot).1
      burst := .empty 100 }
  let created : List (Nat × Signal) :=
    [(5, { kind := .create .folder, paths := [sampleRoot.under [[100]]] })]
  let renamed : List (Nat × Signal) :=
    [(9, .renames (sampleRoot.under [[100]]) (sampleRoot.under [[101]]))]
  let grown := begun.handleAll { window := 100 } grownTree created
  have hbegun : Intake.Tended { window := 100 } sampleRoot [[119]] sampleTree begun :=
    .registered isClear_sampleTree rfl
  have htended : Intake.Tended { window := 100 } sampleRoot [[119]] grownTree grown :=
    hbegun.altered (Alteration.makes_insert (r := [[119]]) (p := []) (by decide) _)
      isClear_grownTree (Alteration.tells_appears (by decide) (.create .folder))
  have hmoves : (Alteration.moves [[100]] [[101]]).Makes [[119]] grownTree renamedTree :=
    Alteration.makes_moveTree (q := []) (by simp) (by decide)
  have htells : (Alteration.moves [[100]] [[101]]).Tells sampleRoot grown.coverage
      (renamed.map Prod.snd) := Alteration.tells_moves (by decide) (by decide)
  have hexact := stays_exact { window := 100 } sampleRoot [[119]] rfl rfl
  exact ⟨grown.handleAll { window := 100 } renamedTree renamed,
    htended.altered hmoves hrenamed htells,
    hexact.1 (hexact.2 htended) hmoves hrenamed htells, by decide⟩

end Coverage

end WorkspaceWatch
