import WorkspaceWatch.FileSystem.Operations
import WorkspaceWatch.Proofs.FileSystem.Arrival
import WorkspaceWatch.Watch.Signal

/-!
# Renames whose sides are not told apart

Some backends tell of a rename by its two paths alone, not which of them is which. The watch then
looks at the files: a path at which something is found was created, any other deleted. Does that
give what it gives if the sides are told apart, a deletion of the old path and a creation of the new
one?

After a rename that leaves nothing at the old path, nothing is found there
(`FileSystem.exists_locateEntry`), and what was renamed is at the place to which the new path led
(`FileSystem.node?_of_rename`). For files and directories that settles it, as long as the new path
still names that place. A link is followed, though: one that dangles, that leads back to itself or
that needs too many links is taken for deleted at both paths, though it is there
(`Signal.changes_bare_rename`).
-/

namespace WorkspaceWatch

namespace Path

/-- A path is spelled without the slashes at its end, and then these. -/
theorem exists_bytes_eq (p : Path) :
    ∃ j, p.bytes = p.withoutEndSlashes.bytes ++ List.replicate j slash := by
  have hsplit : p.bytes = (p.bytes.reverse.dropWhile (· = slash)).reverse ++
      (p.bytes.reverse.takeWhile (· = slash)).reverse := by
    rw [← List.reverse_append, List.takeWhile_append_dropWhile, List.reverse_reverse]
  have hslashes : ∀ b ∈ (p.bytes.reverse.takeWhile (· = slash)).reverse, b = slash := by
    intro b hb
    exact of_decide_eq_true (List.all_eq_true.mp List.all_takeWhile b (List.mem_reverse.mp hb))
  rw [withoutEndSlashes]
  split
  · next hnil =>
    have hall : ∀ b ∈ p.bytes, b = slash := by
      rw [hnil, List.nil_append] at hsplit
      rwa [hsplit]
    refine ⟨(p.bytes.drop 1).length, ?_⟩
    rw [← List.eq_replicate_of_mem fun b hb => hall b (List.mem_of_mem_drop hb),
      List.take_append_drop]
  · exact ⟨_, List.eq_replicate_of_mem hslashes ▸ hsplit⟩

theorem withoutEndSlashes_ne_nil {p : Path} (h : p.bytes ≠ []) :
    p.withoutEndSlashes.bytes ≠ [] := by
  rw [withoutEndSlashes]
  split
  · obtain ⟨b, bs, hbs⟩ := List.exists_cons_of_ne_nil h
    simp [hbs]
  · next hne => exact hne

theorem fault?_withoutEndSlashes {p : Path} (h : p.fault? = none) :
    p.withoutEndSlashes.fault? = none := by
  obtain ⟨hnul, hlength, hnil⟩ := fault?_eq_none_iff.mp h
  obtain ⟨j, hj⟩ := p.exists_bytes_eq
  rw [hj, List.length_append] at hlength
  rw [hj, List.mem_append, not_or] at hnul
  exact fault?_eq_none_iff.mpr
    ⟨hnul.1, Nat.le_of_add_right_le hlength, withoutEndSlashes_ne_nil hnil⟩

theorem isAbsolute_withoutEndSlashes {p : Path} (h : p.bytes ≠ []) :
    p.withoutEndSlashes.isAbsolute = p.isAbsolute := by
  obtain ⟨j, hj⟩ := p.exists_bytes_eq
  rw [isAbsolute, isAbsolute, hj, List.head?_append_of_ne_nil _ (withoutEndSlashes_ne_nil h)]

theorem segments_append_replicate (bs : List UInt8) (j : Nat) :
    segments (bs ++ List.replicate j slash) = segments bs ++ List.replicate j [] := by
  induction j with
  | zero => rw [List.replicate_zero, List.replicate_zero, List.append_nil, List.append_nil]
  | succ j ih =>
    rw [List.replicate_succ', List.replicate_succ', ← List.append_assoc, segments_append_slash, ih,
      List.append_assoc]
    rfl

end Path

namespace FileSystem

variable {fs fs' : FileSystem} {a b path : Path} {source d p q : Place} {name : Name}
  {n m old : Node} {destination : Destination} {k : Nat} {xs : List Name}

theorem Arrives.of_append_replicate {j : Nat}
    (h : fs.Arrives k d (xs ++ List.replicate j []) p n) : fs.Arrives k d xs p n := by
  induction j with
  | zero => rwa [List.replicate_zero, List.append_nil] at h
  | succ j ih =>
    rw [List.replicate_succ', ← List.append_assoc] at h
    exact ih h.of_concat_nil

/-- What is found at a path is the entry of that path, or that entry is a link which leads there. -/
theorem exists_locateEntry (h : fs.hasEntry path = true) :
    ∃ p n, fs.locateEntry path = .ok (.entry p n) := by
  obtain ⟨hfault, hbase, k, p, n, hk, harrives⟩ := hasEntry_iff.mp h
  obtain ⟨j, hj⟩ := path.exists_bytes_eq
  have hnil := (Path.fault?_eq_none_iff.mp hfault).2.2
  have hsame : fs.base path.withoutEndSlashes = fs.base path := by
    rw [base, base, Path.isAbsolute_withoutEndSlashes hnil]
  rw [hj, Path.segments_append_replicate] at harrives
  have hentry : fs.hasEntry path.withoutEndSlashes = true := hasEntry_iff.mpr
    ⟨Path.fault?_withoutEndSlashes hfault, hsame ▸ hbase, k, p, n, hk,
      hsame ▸ harrives.of_append_replicate⟩
  obtain ⟨q, m, hlocate⟩ := hasEntry_iff_locate.mp hentry
  obtain ⟨q, m, hkept⟩ := exists_locate_kept hlocate
  exact ⟨q, m, by rw [locateEntry, hfault, hkept]⟩

/-! ### What a rename does -/

/-- Nothing lies in what a rename may replace. -/
theorem not_suffix_of_replaceable (hold : fs.node? q = some old) (hn : fs.node? source = some n)
    (hne : q ≠ source) (h : fs.replaceable n q old = .ok ()) : ¬q <:+ source := by
  rintro ⟨pre, rfl⟩
  obtain ⟨pre, x, rfl⟩ := List.eq_nil_or_concat pre |>.resolve_left fun hnil =>
    hne (by rw [hnil, List.nil_append])
  rw [List.concat_eq_append, List.append_assoc, List.singleton_append] at hn
  -- Some entry of the place is on the way, so it is a directory that is not empty.
  obtain ⟨inner, hinner⟩ := Option.isSome_iff_exists.mp (fs.isSome_node?_of_append hn)
  obtain ⟨_, haccess⟩ := hasDirectory_iff.mp (fs.hasDirectory_of_node? hinner)
  obtain rfl := Option.some.inj (hold.symm.trans haccess)
  have hnames : fs.names q ≠ [] := List.ne_nil_of_mem (fs.mem_names_iff.mpr ⟨inner, hinner⟩)
  rw [replaceable] at h
  split at h
  · cases h
  · cases h
  · rw [if_neg hnames] at h
    cases h
  · next hfalse => cases hfalse

theorem fault?_of_locateEntry (h : fs.locateEntry path = .ok destination) :
    path.fault? = none := by
  rw [locateEntry] at h
  split at h
  · cases h
  · assumption

theorem node?_of_locateEntry (h : fs.locateEntry path = .ok (.entry p n)) :
    fs.node? p = some n := by
  rw [locateEntry] at h
  split at h
  · cases h
  · exact node?_of_locate h

theorem node?_moveTree_target (hmove : fs.CanMove source d name) (hn : fs.node? source = some n) :
    (fs.moveTree source d name).node? (name :: d) = some n := by
  have hfound := node?_moveTree hmove hmove.1 hn
  rwa [show movedPlace source (name :: d) source = name :: d from
    movedPlace_append source (name :: d) []] at hfound

/-- The place of what is replaced is free for what is renamed. -/
theorem canMove_of_replaceable (hold : fs.node? (name :: d) = some old)
    (hn : fs.node? source = some n) (hne : name :: d ≠ source) (hout : ¬source <:+ name :: d)
    (h : fs.replaceable n (name :: d) old = .ok ()) :
    (fs.removeTree (name :: d)).CanMove source d name := by
  have hsource : source ≠ [] := fun hnil => hout (hnil ▸ List.nil_suffix)
  have hd : ¬source <:+ d := fun hs => hout (hs.trans (List.suffix_cons _ _))
  have hstays : (fs.removeTree (name :: d)).node? source = some n := by
    rw [node?_removeTree _ _ _ hsource, if_neg (not_suffix_of_replaceable hold hn hne h), hn]
  have hfree : (fs.removeTree (name :: d)).node? (name :: d) = none := by
    rw [node?_removeTree _ _ _ (List.cons_ne_nil _ _), if_pos (List.suffix_refl _)]
  have hdir : (fs.removeTree (name :: d)).HasDirectory d := by
    obtain ⟨access, haccess⟩ := hasDirectory_iff.mp (fs.hasDirectory_of_node? hold)
    cases d with
    | nil => rfl
    | cons x d =>
      refine hasDirectory_iff.mpr ⟨access, ?_⟩
      rw [node?_removeTree _ _ _ (List.cons_ne_nil _ _), if_neg, haccess]
      intro hs
      have hlength := hs.length_le
      simp only [List.length_cons] at hlength
      omega
  exact ⟨hsource, Option.isSome_iff_exists.mpr ⟨n, hstays⟩,
    ⟨hfree, hdir, fs.isProperName_of_node? hold⟩, hd⟩

/-- After a rename that leaves nothing at `a`, what was there is found at the place to which `b`
led. -/
theorem node?_of_rename (hrename : fs.rename a b = .ok fs')
    (ha : fs.locateEntry a = .ok (.entry source n)) (hb : fs.locateEntry b = .ok destination)
    (hgone : ∀ p m, fs'.locateEntry a ≠ .ok (.entry p m)) :
    fs'.node? destination.place = some n := by
  have hn := node?_of_locateEntry ha
  have hchanged : fs' ≠ fs := fun heq => hgone source n (heq ▸ ha)
  rw [rename, ha] at hrename
  simp only [bind, Except.bind, hb] at hrename
  cases destination with
  | vacant d name =>
    dsimp only at hrename
    split at hrename
    · cases hrename
    cases hrename
    -- If the tree could not move, then everything would be as it was.
    have hmove : fs.CanMove source d name := by
      by_contra hnot
      exact hchanged (by rw [moveTree, dif_neg hnot])
    exact node?_moveTree_target hmove hn
  | entry target old =>
    have hold := node?_of_locateEntry hb
    dsimp only at hrename
    split at hrename
    · cases hrename
      exact absurd rfl hchanged
    next hne =>
    split at hrename
    · cases hrename
    next hout =>
    cases target with
    | nil => cases hrename
    | cons name d =>
      dsimp only at hrename
      cases hreplace : fs.replaceable n (name :: d) old with
      | error e =>
        rw [hreplace] at hrename
        cases hrename
      | ok =>
        rw [hreplace] at hrename
        cases hrename
        have hmove := canMove_of_replaceable hold hn hne hout hreplace
        refine node?_moveTree_target hmove ?_
        rw [node?_removeTree _ _ _ hmove.1,
          if_neg (not_suffix_of_replaceable hold hn hne hreplace), hn]

end FileSystem

/-! ### What is told of a rename -/

/-- It is not said which side of a rename a path is. -/
def RenameSide.IsBare (side : RenameSide) : Prop := side = .any ∨ side = .other

namespace Signal

variable {fs fs' : FileSystem} {a b : Path} {source : Place} {n : Node} {destination : Destination}
  {side : RenameSide}

theorem changes_bare (hside : side.IsBare) (fs : FileSystem) (a b : Path) (rescan : Bool) :
    (Signal.mk (.modify (.name side)) [a, b] rescan).changes fs =
      [RenameSide.guess fs a, RenameSide.guess fs b] := by
  rcases hside with rfl | rfl <;> rfl

/-- If nothing is found at the old path, then it depends on the new one what the changes are. -/
theorem changes_bare_of_gone (hside : side.IsBare) (hgone : fs.hasEntry a = false)
    (rescan : Bool) :
    (Signal.mk (.modify (.name side)) [a, b] rescan).changes fs =
      if fs.hasEntry b then [.deleted a, .created b] else [.deleted a, .deleted b] := by
  rw [changes_bare hside, RenameSide.guess, if_neg (by simp [hgone]), RenameSide.guess]
  split <;> rfl

theorem changes_bare_eq_iff (hside : side.IsBare) (hgone : fs.hasEntry a = false)
    (rescan : Bool) :
    (Signal.mk (.modify (.name side)) [a, b] rescan).changes fs = [.deleted a, .created b] ↔
      fs.hasEntry b = true := by
  rw [changes_bare_of_gone hside hgone]
  split
  · next hentry => exact iff_of_true rfl hentry
  · next hentry => exact iff_of_false (by simp [Change.deleted, Change.created]) hentry

/-- **A rename whose sides are not told apart.** Say a rename of `a` to `b` leaves nothing at `a`.
Told which path is which, the watch takes it for a deletion of `a` and a creation of `b`. Told no
more than the two paths, it does so exactly if `b` arrives somewhere; otherwise it takes `b` for
deleted too. If `b` still names the place to which it led, then what was renamed is there. Unless
that is a link the changes agree, and if it is a link they agree exactly if it points to something
and no more links than allowed are followed for `b` on the way there. -/
theorem changes_bare_rename (hside : side.IsBare) (hrename : fs.rename a b = .ok fs')
    (ha : fs.locateEntry a = .ok (.entry source n)) (hb : fs.locateEntry b = .ok destination)
    (hgone : ∀ p m, fs'.locateEntry a ≠ .ok (.entry p m)) (rescan : Bool) :
    let bare := (Signal.mk (.modify (.name side)) [a, b] rescan).changes fs'
    let paired := (Signal.mk (.modify (.name .both)) [a, b] rescan).changes fs'
    paired = [.deleted a, .created b] ∧
    (bare = paired ∨ bare = [.deleted a, .deleted b]) ∧
    (bare = paired ↔ fs'.HasDirectory (fs'.base b) ∧ ∃ k p m, k ≤ maxLinks ∧
      fs'.Arrives k (fs'.base b) (segments b.bytes) p m) ∧
    ∀ m, fs'.locate .kept b = .ok (.entry destination.place m) →
      m = n ∧
      ((∀ target, n ≠ .link target) → bare = paired) ∧
      ∀ target, n = .link target → ∃ k₀,
        fs'.EndsInLink k₀ (fs'.base b) (segments b.bytes) destination.place target ∧
        (bare = paired ↔ ∃ k p m, k + 1 + k₀ ≤ maxLinks ∧
          fs'.Points k destination.place target p m) := by
  intro bare paired
  have hnothing : fs'.hasEntry a = false := by
    by_contra hentry
    obtain ⟨p, m, hlocate⟩ := FileSystem.exists_locateEntry (by simpa using hentry)
    exact hgone p m hlocate
  have hagree : bare = paired ↔ fs'.hasEntry b = true :=
    changes_bare_eq_iff hside hnothing rescan
  have hfault : b.fault? = none := FileSystem.fault?_of_locateEntry hb
  refine ⟨rfl, ?_, ?_, fun m hkept => ?_⟩
  · have hbare := changes_bare_of_gone (b := b) hside hnothing rescan
    split at hbare
    · exact .inl hbare
    · exact .inr hbare
  · rw [hagree, FileSystem.hasEntry_iff, and_iff_right hfault]
  have hnode : fs'.node? destination.place = some n :=
    FileSystem.node?_of_rename hrename ha hb hgone
  obtain rfl : m = n := Option.some.inj ((FileSystem.node?_of_locate hkept).symm.trans hnode)
  refine ⟨rfl, fun hnolink => ?_, ?_⟩
  · rw [hagree]
    exact FileSystem.hasEntry_of_locate_kept hkept hnolink
  · rintro target rfl
    obtain ⟨k₀, hends⟩ := FileSystem.exists_endsInLink hkept
    exact ⟨k₀, hends, hagree.trans (hends.hasEntry_iff hkept)⟩

/-! ### Two links that are renamed

In the root there is a file `f` and a link `l`, which is renamed to `m`. -/

/-- The link leads to the file. -/
def linkedTree : FileSystem := { entries := [([[102]], .file ""), ([[108]], .link [102])] }

/-- The link leads to `g`, which is missing. -/
def danglingTree : FileSystem := { entries := [([[102]], .file ""), ([[108]], .link [103])] }

/-- The path `/l`. -/
def oldPath : Path := ⟨[47, 108]⟩

/-- The path `/m`. -/
def newPath : Path := ⟨[47, 109]⟩

/-- A link that leads to a file is taken for created where it was renamed to. -/
theorem changes_bare_rename_linked : ∃ fs' : FileSystem,
    RenameSide.IsBare .any ∧ linkedTree.rename oldPath newPath = .ok fs' ∧
    linkedTree.locateEntry oldPath = .ok (.entry [[108]] (.link [102])) ∧
    linkedTree.locateEntry newPath = .ok (.vacant [] [109]) ∧
    (∀ p m, fs'.locateEntry oldPath ≠ .ok (.entry p m)) ∧
    fs'.locate .kept newPath = .ok (.entry [[109]] (.link [102])) ∧
    (Signal.mk (.modify (.name .any)) [oldPath, newPath] false).changes fs' =
      [.deleted oldPath, .created newPath] := by
  have hrename : linkedTree.rename oldPath newPath =
      .ok (linkedTree.moveTree [[108]] [] [109]) := rfl
  have hold : linkedTree.locateEntry oldPath = .ok (.entry [[108]] (.link [102])) := by decide
  have hnew : linkedTree.locateEntry newPath = .ok (.vacant [] [109]) := by decide
  have hgone : ∀ p m, (linkedTree.moveTree [[108]] [] [109]).locateEntry oldPath ≠
      .ok (.entry p m) := by
    intro p m
    rw [show (linkedTree.moveTree [[108]] [] [109]).locateEntry oldPath =
      .ok (.vacant [] [108]) by decide]
    nofun
  obtain ⟨hpaired, -, hagree, -⟩ :=
    changes_bare_rename (.inl rfl) hrename hold hnew hgone false
  refine ⟨_, .inl rfl, hrename, hold, hnew, hgone, by decide, ?_⟩
  rw [← hpaired, hagree]
  have hlink : (linkedTree.moveTree [[108]] [] [109]).node? [[109]] = some (.link [102]) := by
    decide
  exact ⟨rfl, 1, [[102]], .file "", by decide,
    .stays (.inl rfl) (.follows (by decide) hlink (by decide) (.file (by decide) (by decide)))⟩

/-- A link that dangles is taken for deleted at both paths. -/
theorem changes_bare_rename_dangling : ∃ fs' : FileSystem,
    oldPath ≠ newPath ∧ danglingTree.rename oldPath newPath = .ok fs' ∧
    danglingTree.locateEntry oldPath = .ok (.entry [[108]] (.link [103])) ∧
    (∀ p m, fs'.locateEntry oldPath ≠ .ok (.entry p m)) ∧
    ∀ side : RenameSide, side.IsBare →
      (Signal.mk (.modify (.name side)) [oldPath, newPath] false).changes fs' =
        [.deleted oldPath, .deleted newPath] ∧
      (Signal.mk (.modify (.name side)) [oldPath, newPath] false).changes fs' ≠
        (Signal.mk (.modify (.name .both)) [oldPath, newPath] false).changes fs' := by
  have hold : (danglingTree.moveTree [[108]] [] [109]).locateEntry oldPath =
      .ok (.vacant [] [108]) := by decide
  refine ⟨danglingTree.moveTree [[108]] [] [109], by decide, rfl, by decide, fun p m => ?_,
    fun side hside => ?_⟩
  · rw [hold]
    intro hentry
    cases hentry
  · rcases hside with rfl | rfl <;> decide

end Signal

end WorkspaceWatch
