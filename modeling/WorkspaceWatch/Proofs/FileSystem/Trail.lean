import WorkspaceWatch.Proofs.FileSystem.Descent

/-!
# Trails

A **trail** is the way on which stretches of a path lead from one directory to another, through
links if need be. It says nothing about how many links may be followed, but it counts them. So there
is a trail exactly where the file system leads, and resolution comes to its end if and only if it is
given as many links as the trail takes (`FileSystem.Trail.resolve_eq`). What arrives somewhere
(`FileSystem.Arrives`) may end in a file too, and if it ends in a directory it is a trail.

Trails can be put together and taken apart. The trail of a child's path is that of its directory and
then the one that its name takes from there (`FileSystem.exists_trail_child_iff`).
-/

namespace WorkspaceWatch

namespace FileSystem

variable {fs : FileSystem} {d p q v : Place} {s n : Name} {todo xs ys : List Name} {k k' : Nat}
  {access : Access}

/-- Standing in the directory at `d`, the stretches `todo` lead to the directory at `p`, and `k`
links are followed. -/
inductive Trail (fs : FileSystem) :
    (k : Nat) → (d : Place) → (todo : List Name) → (p : Place) → Prop
  | arrived {d : Place} (there : fs.HasDirectory d) : Trail fs 0 d [] d
  /-- An empty stretch and `.` stay. -/
  | stays {k : Nat} {d p : Place} {s : Name} {todo : List Name} (idle : fs.IsIdle d s)
      (rest : Trail fs k d todo p) : Trail fs k d (s :: todo) p
  /-- `..` leaves the directory. -/
  | leaves {k : Nat} {d p : Place} {todo : List Name} (search : fs.isSearchable d = true)
      (rest : Trail fs k d.tail todo p) : Trail fs k d ([dot, dot] :: todo) p
  /-- A name enters the directory that it names. -/
  | enters {k : Nat} {d p : Place} {s : Name} {todo : List Name}
      (search : fs.isSearchable d = true) (there : fs.HasDirectory (s :: d))
      (rest : Trail fs k (s :: d) todo p) : Trail fs k d (s :: todo) p
  /-- A link is replaced by its target. -/
  | follows {k : Nat} {d p : Place} {s : Name} {todo : List Name} {target : List UInt8}
      (search : fs.isSearchable d = true) (there : fs.node? (s :: d) = some (.link target))
      (nonempty : target ≠ [])
      (rest : Trail fs k (if target.head? = some slash then [] else d) (segments target ++ todo)
        p) :
      Trail fs (k + 1) d (s :: todo) p

/-! ### Taking trails apart -/

/-- How many links are left matters only at a link. -/
theorem exists_resolve_eq (fs : FileSystem) (ending : PathEnd) (links : Nat) :
    ∃ jump, fs.resolve ending links = fs.resolveWith ending jump := by
  cases links <;> exact ⟨_, rfl⟩

private theorem isEntering_of_hasDirectory (h : fs.HasDirectory (s :: d)) : IsEntering s := by
  obtain ⟨_, haccess⟩ := hasDirectory_iff.mp h
  exact isEntering_of_node? haccess

private theorem IsIdle.not_isEntering (h : fs.IsIdle d s) : ¬IsEntering s := fun hs =>
  h.elim hs.1 fun hdot => hs.2.1 hdot.1

namespace Trail

/-- A trail ends in a directory. -/
theorem hasDirectory (h : fs.Trail k d todo p) : fs.HasDirectory p := by
  induction h with
  | arrived hthere => exact hthere
  | stays _ _ ih | leaves _ _ ih | enters _ _ _ ih | follows _ _ _ _ ih => exact ih

theorem of_stays (hs : fs.IsIdle d s) (h : fs.Trail k d (s :: todo) p) :
    fs.Trail k d todo p := by
  cases h with
  | stays _ hrest => exact hrest
  | leaves => rcases hs with hs | ⟨hs, -⟩ <;> cases hs
  | enters _ hthere => exact absurd (isEntering_of_hasDirectory hthere) hs.not_isEntering
  | follows _ hthere => exact absurd (isEntering_of_node? hthere) hs.not_isEntering

theorem of_leaves (h : fs.Trail k d ([dot, dot] :: todo) p) : fs.Trail k d.tail todo p := by
  cases h with
  | stays hidle => rcases hidle with hidle | ⟨hidle, -⟩ <;> cases hidle
  | leaves _ hrest => exact hrest
  | enters _ hthere => exact absurd rfl (isEntering_of_hasDirectory hthere).2.2.1
  | follows _ hthere => exact absurd rfl (isEntering_of_node? hthere).2.2.1

theorem of_enters (hthere : fs.HasDirectory (s :: d)) (h : fs.Trail k d (s :: todo) p) :
    fs.Trail k (s :: d) todo p := by
  have hs := isEntering_of_hasDirectory hthere
  cases h with
  | stays hidle => exact absurd hs hidle.not_isEntering
  | leaves => exact absurd rfl hs.2.2.1
  | enters _ _ hrest => exact hrest
  | follows _ hlink =>
    obtain ⟨_, haccess⟩ := hasDirectory_iff.mp hthere
    rw [haccess] at hlink
    cases hlink

theorem of_follows {target : List UInt8} (hthere : fs.node? (s :: d) = some (.link target))
    (h : fs.Trail k d (s :: todo) p) : ∃ k', k = k' + 1 ∧
      fs.Trail k' (if target.head? = some slash then [] else d) (segments target ++ todo) p := by
  have hs := isEntering_of_node? hthere
  cases h with
  | stays hidle => exact absurd hs hidle.not_isEntering
  | leaves => exact absurd rfl hs.2.2.1
  | enters _ hdir =>
    rw [HasDirectory, hthere] at hdir
    cases hdir
  | follows _ hlink _ hrest =>
    rw [hthere] at hlink
    cases hlink
    exact ⟨_, rfl, hrest⟩

/-! ### Putting trails together -/

/-- One trail goes on where another one has ended. -/
theorem append (h : fs.Trail k d xs p) (h' : fs.Trail k' p ys q) :
    fs.Trail (k' + k) d (xs ++ ys) q := by
  induction h with
  | arrived => exact h'
  | stays hidle _ ih => exact .stays hidle (ih h')
  | leaves hsearch _ ih => exact .leaves hsearch (ih h')
  | enters hsearch hthere _ ih => exact .enters hsearch hthere (ih h')
  | follows hsearch hthere hne _ ih =>
    have hrest := ih h'
    rw [List.append_assoc] at hrest
    exact .follows hsearch hthere hne hrest

/-- What is left of a trail where another one has ended. -/
theorem exists_rest (h : fs.Trail k d xs p) {K : Nat} (h' : fs.Trail K d (xs ++ ys) q) :
    ∃ k', K = k' + k ∧ fs.Trail k' p ys q := by
  induction h generalizing K with
  | arrived => exact ⟨K, rfl, h'⟩
  | stays hidle _ ih => exact ih (h'.of_stays hidle)
  | leaves _ _ ih => exact ih h'.of_leaves
  | enters _ hthere _ ih => exact ih (h'.of_enters hthere)
  | follows _ hthere _ _ ih =>
    rw [List.cons_append] at h'
    obtain ⟨K', rfl, hrest⟩ := h'.of_follows hthere
    rw [← List.append_assoc] at hrest
    obtain ⟨k', rfl, hk'⟩ := ih hrest
    exact ⟨k', rfl, hk'⟩

end Trail

/-! ### Trails that may end in a file -/

/-- Standing in the directory at `d`, the stretches `todo` lead to the node `n` at `p`, which is not
a link, and `k` links are followed. -/
inductive Arrives (fs : FileSystem) :
    (k : Nat) → (d : Place) → (todo : List Name) → (p : Place) → (n : Node) → Prop
  /-- At the end of all stretches, in a directory. -/
  | here {d : Place} {access : Access} (there : fs.node? d = some (.directory access)) :
      Arrives fs 0 d [] d (.directory access)
  /-- The last stretch names a file. -/
  | file {d : Place} {s : Name} {content : String} (search : fs.isSearchable d = true)
      (there : fs.node? (s :: d) = some (.file content)) :
      Arrives fs 0 d [s] (s :: d) (.file content)
  /-- An empty stretch and `.` stay. -/
  | stays {k : Nat} {d p : Place} {s : Name} {todo : List Name} {n : Node}
      (idle : fs.IsIdle d s) (rest : Arrives fs k d todo p n) : Arrives fs k d (s :: todo) p n
  /-- `..` leaves the directory. -/
  | leaves {k : Nat} {d p : Place} {todo : List Name} {n : Node} (search : fs.isSearchable d = true)
      (rest : Arrives fs k d.tail todo p n) : Arrives fs k d ([dot, dot] :: todo) p n
  /-- A name enters the directory that it names. -/
  | enters {k : Nat} {d p : Place} {s : Name} {todo : List Name} {n : Node}
      (search : fs.isSearchable d = true) (there : fs.HasDirectory (s :: d))
      (rest : Arrives fs k (s :: d) todo p n) : Arrives fs k d (s :: todo) p n
  /-- A link is replaced by its target. -/
  | follows {k : Nat} {d p : Place} {s : Name} {todo : List Name} {n : Node} {target : List UInt8}
      (search : fs.isSearchable d = true) (there : fs.node? (s :: d) = some (.link target))
      (nonempty : target ≠ [])
      (rest : Arrives fs k (if target.head? = some slash then [] else d)
        (segments target ++ todo) p n) :
      Arrives fs (k + 1) d (s :: todo) p n

theorem Trail.arrives (h : fs.Trail k d todo p)
    (haccess : fs.node? p = some (.directory access)) :
    fs.Arrives k d todo p (.directory access) := by
  induction h with
  | arrived => exact .here haccess
  | stays hidle _ ih => exact .stays hidle (ih haccess)
  | leaves hsearch _ ih => exact .leaves hsearch (ih haccess)
  | enters hsearch hthere _ ih => exact .enters hsearch hthere (ih haccess)
  | follows hsearch hthere hne _ ih => exact .follows hsearch hthere hne (ih haccess)

namespace Arrives

variable {node : Node}

theorem trail (h : fs.Arrives k d todo p (.directory access)) : fs.Trail k d todo p := by
  generalize hnode : Node.directory access = node at h
  induction h with
  | here hthere => exact .arrived (hasDirectory_iff.mpr ⟨_, hthere⟩)
  | file => cases hnode
  | stays hidle _ ih => exact .stays hidle (ih hnode)
  | leaves hsearch _ ih => exact .leaves hsearch (ih hnode)
  | enters hsearch hthere _ ih => exact .enters hsearch hthere (ih hnode)
  | follows hsearch hthere hne _ ih => exact .follows hsearch hthere hne (ih hnode)

/-- An empty stretch at the end does not matter. -/
theorem of_concat_nil (h : fs.Arrives k d (xs ++ [[]]) p node) : fs.Arrives k d xs p node := by
  generalize hys : xs ++ [[]] = ys at h
  induction h generalizing xs with
  | here => simp at hys
  | file _ hthere =>
    cases xs with
    | nil =>
      obtain ⟨rfl, -⟩ := List.cons.inj hys
      exact absurd rfl (isEntering_of_node? hthere).1
    | cons x xs => simp at hys
  | stays hidle hrest ih =>
    cases xs with
    | nil =>
      obtain ⟨rfl, rfl⟩ := List.cons.inj hys
      exact hrest
    | cons x xs =>
      obtain ⟨rfl, rfl⟩ := List.cons.inj hys
      exact .stays hidle (ih rfl)
  | leaves hsearch _ ih =>
    cases xs with
    | nil => cases hys
    | cons x xs =>
      obtain ⟨rfl, rfl⟩ := List.cons.inj hys
      exact .leaves hsearch (ih rfl)
  | enters hsearch hthere _ ih =>
    cases xs with
    | nil =>
      obtain ⟨rfl, -⟩ := List.cons.inj hys
      exact absurd rfl (isEntering_of_hasDirectory hthere).1
    | cons x xs =>
      obtain ⟨rfl, rfl⟩ := List.cons.inj hys
      exact .enters hsearch hthere (ih rfl)
  | follows hsearch hthere hne _ ih =>
    cases xs with
    | nil =>
      obtain ⟨rfl, -⟩ := List.cons.inj hys
      exact absurd rfl (isEntering_of_node? hthere).1
    | cons x xs =>
      obtain ⟨rfl, rfl⟩ := List.cons.inj hys
      exact .follows hsearch hthere hne (ih (List.append_assoc _ _ _))

end Arrives

namespace Trail

theorem of_concat_nil (h : fs.Trail k d (xs ++ [[]]) p) : fs.Trail k d xs p := by
  obtain ⟨_, haccess⟩ := hasDirectory_iff.mp h.hasDirectory
  exact (h.arrives haccess).of_concat_nil.trail

/-! ### Trails and resolution -/

/-- Where a trail has ended, resolution goes on with the links that are left, if it may follow as
many as the trail takes; otherwise it says that there are too many. -/
theorem resolve_append (h : fs.Trail k d xs p) (ys : List Name) (links : Nat) :
    fs.resolve .followed links d (xs ++ ys) =
      if k ≤ links then fs.resolve .followed (links - k) p ys else .error .tooManyLinks := by
  induction h generalizing links with
  | arrived => rw [List.nil_append, if_pos (Nat.zero_le links), Nat.sub_zero]
  | stays hidle _ ih =>
    obtain ⟨jump, hjump⟩ := exists_resolve_eq fs .followed links
    rw [List.cons_append, hjump, resolveWith_stays hidle, ← hjump, ih]
  | leaves hsearch _ ih =>
    obtain ⟨jump, hjump⟩ := exists_resolve_eq fs .followed links
    rw [List.cons_append, hjump, resolveWith_leaves rfl hsearch, ← hjump, ih]
  | enters hsearch hthere _ ih =>
    obtain ⟨jump, hjump⟩ := exists_resolve_eq fs .followed links
    obtain ⟨access, haccess⟩ := hasDirectory_iff.mp hthere
    rw [List.cons_append, hjump, resolveWith_enters (isEntering_of_node? haccess) hsearch,
      haccess]
    dsimp only
    rw [← hjump, ih]
  | follows hsearch hthere hne _ ih =>
    have hs := isEntering_of_node? hthere
    cases links with
    | zero =>
      rw [List.cons_append, resolve, resolveWith_enters hs hsearch, hthere]
      dsimp only
      rw [if_neg hne, if_neg (Nat.not_succ_le_zero _)]
    | succ links =>
      rw [List.cons_append, resolve, resolveWith_enters hs hsearch, hthere]
      dsimp only
      rw [if_neg hne, ← List.append_assoc, ih]
      simp only [Nat.succ_le_succ_iff, Nat.add_sub_add_right]

/-- **Resolution comes to the end of a trail** if it may follow as many links as the trail takes,
and says otherwise that there are too many. -/
theorem resolve_eq (h : fs.Trail k d todo p) (haccess : fs.node? p = some (.directory access))
    (links : Nat) :
    fs.resolve .followed links d todo =
      if k ≤ links then .ok (.entry p (.directory access)) else .error .tooManyLinks := by
  have happend := h.resolve_append [] links
  obtain ⟨jump, hjump⟩ := exists_resolve_eq fs .followed (links - k)
  rw [List.append_nil] at happend
  rw [happend, hjump, resolveWith, haccess]

end Trail

/-- If resolution leads to a directory, it does so on a trail. -/
theorem exists_trail_of_resolve {ending : PathEnd} {links : Nat}
    (h : fs.resolve ending links d todo = .ok (.entry p (.directory access))) :
    ∃ k, k ≤ links ∧ fs.Trail k d todo p := by
  -- A jump follows one link less than there were before it.
  have step : ∀ jump bound, (∀ d ys, jump d ys = .ok (.entry p (.directory access)) →
        ∃ k, k < bound ∧ fs.Trail k d ys p) → ∀ todo d,
      fs.resolveWith ending jump d todo = .ok (.entry p (.directory access)) →
        ∃ k, k ≤ bound ∧ fs.Trail k d todo p := by
    intro jump bound hjump todo
    induction todo with
    | nil =>
      intro d hd
      rw [resolveWith] at hd
      split at hd <;> cases hd
      next hnode => exact ⟨0, Nat.zero_le _, .arrived (hasDirectory_iff.mpr ⟨access, hnode⟩)⟩
    | cons s todo ih =>
      intro d hd
      cases passes_of_resolveWith hd with
      | stays hs hrest =>
        obtain ⟨k, hk, htrail⟩ := ih d hrest
        exact ⟨k, hk, .stays hs htrail⟩
      | leaves hs hsearch hrest =>
        obtain ⟨k, hk, htrail⟩ := ih _ hrest
        exact ⟨k, hk, hs ▸ .leaves hsearch htrail⟩
      | vacant _ _ _ _ hend | file _ _ _ _ hend | kept _ _ _ _ hend => cases hend
      | directory _ hsearch hnode hrest =>
        obtain ⟨k, hk, htrail⟩ := ih _ hrest
        exact ⟨k, hk, .enters hsearch (hasDirectory_iff.mpr ⟨_, hnode⟩) htrail⟩
      | link _ hsearch hnode htarget hrest =>
        obtain ⟨k, hk, htrail⟩ := hjump _ _ hrest
        exact ⟨k + 1, hk, .follows hsearch hnode htarget htrail⟩
  induction links generalizing d todo with
  | zero => exact step _ 0 (fun _ _ hd => by cases hd) todo d h
  | succ links ih =>
    refine step _ (links + 1) (fun _ _ hd => ?_) todo d h
    obtain ⟨k, hk, htrail⟩ := ih hd
    exact ⟨k, Nat.lt_succ_of_le hk, htrail⟩

/-! ### Trails of paths -/

/-- Where a path begins. -/
def base (fs : FileSystem) (path : Path) : Place :=
  if path.isAbsolute then [] else fs.workingDirectory

/-- The trail of a path, from where the path begins. -/
def PathTrail (fs : FileSystem) (k : Nat) (path : Path) (p : Place) : Prop :=
  fs.Trail k (fs.base path) (segments path.bytes) p

variable {path : Path}

theorem locate_eq {ending : PathEnd} (hfault : path.fault? = none)
    (hbase : fs.HasDirectory (fs.base path)) :
    fs.locate ending path = fs.resolve ending maxLinks (fs.base path) (segments path.bytes) := by
  rw [locate, hfault, base] at *
  dsimp only
  split
  · rfl
  · next habsolute =>
    rw [if_neg habsolute] at hbase
    rw [if_pos hbase]

theorem hasDirectory_base_of_locate {ending : PathEnd} {destination : Destination}
    (h : fs.locate ending path = .ok destination) : fs.HasDirectory (fs.base path) := by
  rw [locate, fault?_of_locate h] at h
  rw [base]
  dsimp only at h
  split
  · rfl
  · next habsolute =>
    rw [if_neg habsolute] at h
    split at h
    · assumption
    · cases h

theorem exists_trail_of_locate {ending : PathEnd}
    (h : fs.locate ending path = .ok (.entry p (.directory access))) :
    ∃ k, k ≤ maxLinks ∧ fs.PathTrail k path p := by
  rw [locate_eq (fault?_of_locate h) (hasDirectory_base_of_locate h)] at h
  exact exists_trail_of_resolve h

/-- A path leads to the end of its trail if that takes no more links than are followed. -/
theorem locate_of_trail (hfault : path.fault? = none) (hbase : fs.HasDirectory (fs.base path))
    (h : fs.PathTrail k path p) (hk : k ≤ maxLinks) :
    ∃ access, fs.locate .followed path = .ok (.entry p (.directory access)) := by
  obtain ⟨access, haccess⟩ := hasDirectory_iff.mp h.hasDirectory
  exact ⟨access, by rw [locate_eq hfault hbase, Trail.resolve_eq h haccess, if_pos hk]⟩

/-- A path that leads to a directory leads there also if a link at its end is followed. -/
theorem locate_followed {ending : PathEnd}
    (h : fs.locate ending path = .ok (.entry p (.directory access))) :
    fs.locate .followed path = .ok (.entry p (.directory access)) := by
  obtain ⟨k, hk, htrail⟩ := exists_trail_of_locate h
  obtain ⟨_, hfollowed⟩ :=
    locate_of_trail (fault?_of_locate h) (hasDirectory_base_of_locate h) htrail hk
  rwa [Option.some.inj ((node?_of_locate h).symm.trans (node?_of_locate hfollowed))]

/-- If the answer is not that there are too many links, then the trail does not take too many. -/
theorem PathTrail.le_maxLinks (h : fs.PathTrail k path p) (hfault : path.fault? = none)
    (hbase : fs.HasDirectory (fs.base path))
    (hlocate : fs.locate .followed path ≠ .error .tooManyLinks) : k ≤ maxLinks := by
  obtain ⟨_, haccess⟩ := hasDirectory_iff.mp h.hasDirectory
  by_contra hk
  rw [locate_eq hfault hbase, Trail.resolve_eq h haccess, if_neg hk] at hlocate
  exact hlocate rfl

theorem base_child (dir : Path) (hn : isProperName n = true) :
    fs.base (dir.child n) = fs.base dir := by
  rw [base, base, Path.isAbsolute_child dir hn]

/-- The trails of a child's path are those which its name takes from the directory, with as many
links more as it takes to come there. -/
theorem exists_trail_child_iff {dir : Path}
    (hdir : fs.locate .followed dir = .ok (.entry v (.directory access)))
    (hn : isProperName n = true) :
    ∃ k₀, ∀ K u, fs.PathTrail K (dir.child n) u ↔ ∃ k, K = k + k₀ ∧ fs.Trail k v [n] u := by
  obtain ⟨xs, hsegments, hchild⟩ := Path.segments_child dir hn
  obtain ⟨k₀, -, htrail⟩ := exists_trail_of_locate hdir
  have hway : fs.Trail k₀ (fs.base dir) xs v := by
    rw [PathTrail] at htrail
    rcases hsegments with heq | heq <;> rw [heq] at htrail
    · exact htrail
    · exact htrail.of_concat_nil
  refine ⟨k₀, fun K u => ?_⟩
  rw [PathTrail, base_child dir hn, hchild]
  constructor
  · exact hway.exists_rest
  · rintro ⟨k, rfl, hk⟩
    exact hway.append hk

end FileSystem

end WorkspaceWatch
