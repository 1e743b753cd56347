import WorkspaceWatch.FileSystem.Resolve
import WorkspaceWatch.Proofs.Path.Descent

/-!
# Going down from a directory

Where the path of a child leads is decided by where the path of its directory leads and by what the
directory holds under the child's name: the same links are followed on the way, however the
directory is spelled (`FileSystem.locate_child`). So a directory at the end of a path can be entered
step by step, by joining names to that path.
-/

namespace WorkspaceWatch

/-! ### Paths that fit -/

namespace Path

variable {d : Path} {n : Name}

theorem fault?_eq_none_iff {p : Path} : p.fault? = none ↔
    0 ∉ p.bytes ∧ p.bytes.length ≤ maxPathLength ∧ p.bytes ≠ [] := by
  rw [fault?]
  split
  · next hnul => simp [hnul]
  split
  · next hlength => simp [Nat.not_le_of_gt hlength]
  split
  · next hnil => simp [hnil]
  · next hnul hlength hnil => simp [hnul, Nat.le_of_not_gt hlength, hnil]

/-- The path is not longer than the operating system takes it. -/
def Fits (p : Path) : Prop := p.bytes.length ≤ maxPathLength

instance (p : Path) : Decidable p.Fits := inferInstanceAs (Decidable (_ ≤ _))

theorem Fits.of_child (h : (d.child n).Fits) : d.Fits := by
  obtain ⟨between, -, hbytes⟩ := bytes_child d n
  rw [Fits, hbytes, List.length_append] at h
  exact (Nat.le_add_right _ _).trans h

theorem fits_of_fault? (h : d.fault? = none) : d.Fits := by
  unfold fault? at h
  split_ifs at h with _ hlong
  exact Nat.le_of_not_lt hlong

/-- Below a directory, nothing is wrong with a path but that it may be too long. -/
theorem fault?_child (hd : d.fault? = none) (hn : isProperName n = true) (h : (d.child n).Fits) :
    (d.child n).fault? = none := by
  obtain ⟨between, hbetween, hbytes⟩ := bytes_child d n
  unfold fault? at hd ⊢
  split_ifs at hd with hnul hlong hempty
  have hnul' : 0 ∉ (d.child n).bytes := by
    simp only [isProperName, Bool.and_eq_true, List.all_eq_true, decide_eq_true_eq] at hn
    rw [hbytes, List.mem_append, List.mem_append]
    rintro (hmem | hmem | hmem)
    · exact hnul hmem
    · exact absurd (hbetween 0 hmem) (by decide)
    · exact (hn.2 0 hmem).2 rfl
  rw [if_neg hnul', if_neg (Nat.not_lt.mpr h), if_neg (by simp [hbytes, hempty])]

end Path

namespace FileSystem

variable {fs : FileSystem} {ending : PathEnd} {p d : Place} {n s : Name} {node : Node}
  {access : Access} {todo : List Name} {jump : Place → List Name → Except IoFault Destination}
  {destination : Destination}

/-- All names on the way to what exists are proper. -/
theorem isProper_of_node? (h : fs.node? p = some node) : p.IsProper := by
  induction p generalizing node with
  | nil => exact fun n hn => absurd hn List.not_mem_nil
  | cons name p ih =>
    obtain ⟨m, hm, -⟩ := Option.any_eq_true _ _ |>.mp (fs.hasDirectory_of_node? h)
    intro n hn
    rcases List.mem_cons.mp hn with rfl | hn
    · exact fs.isProperName_of_node? h
    · exact ih hm n hn

theorem hasDirectory_iff : fs.HasDirectory p ↔ ∃ access, fs.node? p = some (.directory access) := by
  rw [HasDirectory, Option.any_eq_true]
  constructor
  · rintro ⟨node, hnode, hdir⟩
    cases node with
    | directory access => exact ⟨access, hnode⟩
    | file | link => cases hdir
  · rintro ⟨access, haccess⟩
    exact ⟨_, haccess, rfl⟩

theorem hasDirectory_tail (h : fs.HasDirectory d) : fs.HasDirectory d.tail := by
  cases d with
  | nil => exact h
  | cons name d =>
    obtain ⟨_, haccess⟩ := hasDirectory_iff.mp h
    exact fs.hasDirectory_of_node? haccess

theorem hasDirectory_of_suffix {q : Place} (h : fs.HasDirectory p) (hq : q <:+ p) :
    fs.HasDirectory q := by
  induction p with
  | nil => exact List.suffix_nil.mp hq ▸ h
  | cons name p ih =>
    rcases List.suffix_cons_iff.mp hq with rfl | hq
    · exact h
    · exact ih (hasDirectory_tail h) hq

theorem isSearchable_iff : fs.isSearchable p = true ↔
    ∃ access, fs.node? p = some (.directory access) ∧ access.searchable = true := by
  rw [isSearchable, Option.any_eq_true]
  constructor
  · rintro ⟨node, hnode, hsearch⟩
    cases node with
    | directory access => exact ⟨access, hnode, hsearch⟩
    | file | link => cases hsearch
  · rintro ⟨access, haccess, hsearch⟩
    exact ⟨_, haccess, hsearch⟩

/-! ### One stretch of a path -/

/-- The stretch stays in the directory at `d`. -/
def IsIdle (fs : FileSystem) (d : Place) (s : Name) : Prop :=
  s = [] ∨ s = [dot] ∧ fs.isSearchable d = true

/-- The stretch enters what it names. -/
def IsEntering (s : Name) : Prop :=
  s ≠ [] ∧ s ≠ [dot] ∧ s ≠ [dot, dot] ∧ s.length ≤ maxNameLength

theorem isEntering_of_isProperName (h : isProperName s = true) : IsEntering s := by
  simp only [isProperName, Bool.and_eq_true, decide_eq_true_eq] at h
  obtain ⟨⟨⟨⟨hnil, hdot⟩, hup⟩, hlength⟩, -⟩ := h
  exact ⟨hnil, hdot, hup, hlength⟩

theorem isEntering_of_node? (h : fs.node? (s :: d) = some node) : IsEntering s :=
  isEntering_of_isProperName (fs.isProperName_of_node? h)

/-- What a stretch does, standing in the directory at `d`, if the path leads to a destination. -/
inductive Passes (fs : FileSystem) (ending : PathEnd)
    (jump : Place → List Name → Except IoFault Destination) (d : Place) (s : Name)
    (todo : List Name) (destination : Destination) : Prop where
  | stays (hs : fs.IsIdle d s)
    (hrest : fs.resolveWith ending jump d todo = .ok destination)
  | leaves (hs : s = [dot, dot]) (hsearch : fs.isSearchable d = true)
    (hrest : fs.resolveWith ending jump d.tail todo = .ok destination)
  | vacant (hs : IsEntering s) (hsearch : fs.isSearchable d = true)
    (hnode : fs.node? (s :: d) = none) (htodo : todo = []) (hend : destination = .vacant d s)
  | directory {access : Access} (hs : IsEntering s) (hsearch : fs.isSearchable d = true)
    (hnode : fs.node? (s :: d) = some (.directory access))
    (hrest : fs.resolveWith ending jump (s :: d) todo = .ok destination)
  | file {content : String} (hs : IsEntering s) (hsearch : fs.isSearchable d = true)
    (hnode : fs.node? (s :: d) = some (.file content)) (htodo : todo = [])
    (hend : destination = .entry (s :: d) (.file content))
  | kept {target : List UInt8} (hs : IsEntering s) (hsearch : fs.isSearchable d = true)
    (hnode : fs.node? (s :: d) = some (.link target)) (hkept : ending = .kept)
    (hend : destination = .entry (s :: d) (.link target))
  | link {target : List UInt8} (hs : IsEntering s) (hsearch : fs.isSearchable d = true)
    (hnode : fs.node? (s :: d) = some (.link target)) (htarget : target ≠ [])
    (hrest : jump (if target.head? = some slash then [] else d) (segments target ++ todo) =
      .ok destination)

theorem passes_of_resolveWith (h : fs.resolveWith ending jump d (s :: todo) = .ok destination) :
    Passes fs ending jump d s todo destination := by
  rw [resolveWith] at h
  by_cases hempty : s = []
  · rw [if_pos hempty] at h
    exact .stays (.inl hempty) h
  rw [if_neg hempty] at h
  by_cases hsearch : fs.isSearchable d = true
  case neg =>
    rw [if_pos hsearch] at h
    cases h
  rw [if_neg (not_not.mpr hsearch)] at h
  by_cases hidle : s = [dot]
  · rw [if_pos hidle] at h
    exact .stays (.inr ⟨hidle, hsearch⟩) h
  rw [if_neg hidle] at h
  by_cases hup : s = [dot, dot]
  · rw [if_pos hup] at h
    exact .leaves hup hsearch h
  rw [if_neg hup] at h
  split at h
  · cases h
  split at h
  · cases h
  next hlength =>
  have hs : IsEntering s := ⟨hempty, hidle, hup, Nat.le_of_not_gt hlength⟩
  split at h
  · next hnode =>
    split at h <;> cases h
    next htodo => exact .vacant hs hsearch hnode htodo rfl
  · next hnode => exact .directory hs hsearch hnode h
  · next hnode =>
    split at h <;> cases h
    next htodo => exact .file hs hsearch hnode htodo rfl
  · next hnode =>
    split at h
    · next hkept =>
      cases h
      exact .kept hs hsearch hnode hkept.2 rfl
    · split at h
      · cases h
      · next htarget => exact .link hs hsearch hnode htarget h

theorem resolveWith_stays (hs : fs.IsIdle d s) :
    fs.resolveWith ending jump d (s :: todo) = fs.resolveWith ending jump d todo := by
  rw [resolveWith]
  rcases hs with rfl | ⟨rfl, hsearch⟩
  · rfl
  · rw [if_neg (by simp), if_neg (not_not.mpr hsearch), if_pos rfl]

theorem resolveWith_leaves (hs : s = [dot, dot]) (hsearch : fs.isSearchable d = true) :
    fs.resolveWith ending jump d (s :: todo) = fs.resolveWith ending jump d.tail todo := by
  subst hs
  rw [resolveWith, if_neg (by simp), if_neg (not_not.mpr hsearch), if_neg (by simp), if_pos rfl]

/-- A stretch that enters what it names, unless the end is going to be written. -/
theorem resolveWith_named (hs : IsEntering s) (hsearch : fs.isSearchable d = true)
    (hending : ending ≠ .written) :
    fs.resolveWith ending jump d (s :: todo) =
      match fs.node? (s :: d) with
      | none => if todo = [] then .ok (.vacant d s) else .error .missing
      | some (.directory _) => fs.resolveWith ending jump (s :: d) todo
      | some (.file content) =>
        if todo = [] then .ok (.entry (s :: d) (.file content)) else .error .notDirectory
      | some (.link target) =>
        if todo = [] ∧ ending = .kept then .ok (.entry (s :: d) (.link target))
        else if target = [] then .error .missing
        else jump (if target.head? = some slash then [] else d) (segments target ++ todo) := by
  obtain ⟨hnil, hdot, hup, hlength⟩ := hs
  rewrite [resolveWith, if_neg hnil, if_neg (not_not.mpr hsearch), if_neg hdot, if_neg hup,
    if_neg fun h => hending h.1, if_neg (Nat.not_lt.2 hlength)]
  cases fs.node? (s :: d) with
  | none => rfl
  | some n => cases n <;> rfl

/-- A stretch that enters what it names, where links are followed. -/
theorem resolveWith_enters (hs : IsEntering s) (hsearch : fs.isSearchable d = true) :
    fs.resolveWith .followed jump d (s :: todo) =
      match fs.node? (s :: d) with
      | none => if todo = [] then .ok (.vacant d s) else .error .missing
      | some (.directory _) => fs.resolveWith .followed jump (s :: d) todo
      | some (.file content) =>
        if todo = [] then .ok (.entry (s :: d) (.file content)) else .error .notDirectory
      | some (.link target) =>
        if target = [] then .error .missing
        else jump (if target.head? = some slash then [] else d) (segments target ++ todo) := by
  rw [resolveWith_named hs hsearch (by decide)]
  cases fs.node? (s :: d) with
  | none => rfl
  | some n =>
    cases n with
    | file | directory => rfl
    | link target => exact if_neg (by simp)

/-! ### One stretch more -/

/-- The name is looked up in the directory where resolution stands. -/
theorem resolveWith_name (hsearch : fs.isSearchable p = true)
    (hnode : fs.node? (n :: p) = some node)
    (hkept : ending = .kept ∨ ending = .followed ∧ ∀ target, node ≠ .link target) :
    fs.resolveWith ending jump p [n] = .ok (.entry (n :: p) node) := by
  have hending : ending ≠ .written := by rcases hkept with rfl | ⟨rfl, -⟩ <;> decide
  rw [resolveWith_named (isEntering_of_node? hnode) hsearch hending, hnode]
  cases node with
  | file content => rfl
  | directory access =>
    dsimp only
    rw [resolveWith, hnode]
  | link target =>
    rcases hkept with rfl | ⟨-, hlink⟩
    · rfl
    · exact absurd rfl (hlink target)

/-- Nothing can be looked up in a directory that cannot be searched. -/
theorem resolveWith_denied (hs : s ≠ []) (hsearch : fs.isSearchable d = false) :
    fs.resolveWith ending jump d (s :: todo) = .error .denied := by
  rw [resolveWith, if_neg hs, if_pos (by simp [hsearch])]

/-- If stretches lead to a directory, then with one more name resolution comes to stand in this
directory before that name. -/
private theorem exists_resolve_concat {t : List Name} (ht : t = [] ∨ t = [[]])
    (hending : ending ≠ .written) {links : Nat} {xs : List Name}
    (h : fs.resolve .followed links d (xs ++ t) = .ok (.entry p (.directory access))) :
    ∃ jump, ∀ n, fs.resolve ending links d (xs ++ [n]) = fs.resolveWith ending jump p [n] := by
  -- Both resolutions go the same way through `xs`, with the same links left for each jump.
  have step : ∀ jump jump' : Place → List Name → Except IoFault Destination,
      (∀ d ys, jump d (ys ++ t) = .ok (.entry p (.directory access)) →
        ∃ last, ∀ n, jump' d (ys ++ [n]) = fs.resolveWith ending last p [n]) →
      ∀ xs d, fs.resolveWith .followed jump d (xs ++ t) = .ok (.entry p (.directory access)) →
        ∃ last, ∀ n, fs.resolveWith ending jump' d (xs ++ [n]) =
          fs.resolveWith ending last p [n] := by
    intro jump jump' hjump xs
    induction xs with
    | nil =>
      intro d hd
      have hend : fs.resolveWith .followed jump d [] = .ok (.entry p (.directory access)) := by
        rcases ht with rfl | rfl
        · exact hd
        · rwa [List.nil_append, resolveWith_stays (.inl rfl)] at hd
      obtain rfl : d = p := by
        rw [resolveWith] at hend
        split at hend <;> cases hend
        rfl
      exact ⟨jump', fun n => rfl⟩
    | cons x xs ih =>
      intro d hd
      rw [List.cons_append] at hd
      cases passes_of_resolveWith hd with
      | stays hs hrest =>
        obtain ⟨last, hlast⟩ := ih d hrest
        exact ⟨last, fun n => by rw [List.cons_append, resolveWith_stays hs, hlast]⟩
      | leaves hs hsearch hrest =>
        obtain ⟨last, hlast⟩ := ih d.tail hrest
        exact ⟨last, fun n => by rw [List.cons_append, resolveWith_leaves hs hsearch, hlast]⟩
      | vacant _ _ _ _ hend | file _ _ _ _ hend | kept _ _ _ _ hend => cases hend
      | directory hs hsearch hnode hrest =>
        obtain ⟨last, hlast⟩ := ih (x :: d) hrest
        refine ⟨last, fun n => ?_⟩
        rw [List.cons_append, resolveWith_named hs hsearch hending, hnode]
        exact hlast n
      | link hs hsearch hnode htarget hrest =>
        rw [← List.append_assoc] at hrest
        obtain ⟨last, hlast⟩ := hjump _ _ hrest
        refine ⟨last, fun n => ?_⟩
        rw [List.cons_append, resolveWith_named hs hsearch hending, hnode]
        dsimp only
        rw [if_neg (by simp), if_neg htarget, ← List.append_assoc]
        exact hlast n
  induction links generalizing d xs with
  | zero => exact step _ _ (fun _ _ hd => by cases hd) xs d h
  | succ links ih => exact step _ _ (fun _ _ hd => ih hd) xs d h

/-! ### Children -/

theorem fault?_of_locate {path : Path} {destination : Destination}
    (h : fs.locate ending path = .ok destination) : path.fault? = none := by
  rw [locate] at h
  split at h
  · cases h
  · assumption

/-- The path of a child is resolved as far as its directory, where its name is looked up. -/
theorem exists_locate_child {dir : Path}
    (hdir : fs.locate .followed dir = .ok (.entry p (.directory access)))
    (hn : isProperName n = true) (hfault : (dir.child n).fault? = none)
    (hending : ending ≠ .written) :
    ∃ jump, fs.locate ending (dir.child n) = fs.resolveWith ending jump p [n] := by
  obtain ⟨xs, hsegments, hchild⟩ := Path.segments_child dir hn
  obtain ⟨t, ht, hdirSegments⟩ : ∃ t : List Name, (t = [] ∨ t = [[]]) ∧
      segments dir.bytes = xs ++ t := by
    rcases hsegments with h | h
    · exact ⟨[], .inl rfl, by rw [h, List.append_nil]⟩
    · exact ⟨[[]], .inr rfl, h⟩
  simp only [locate, fault?_of_locate hdir, hdirSegments] at hdir
  simp only [locate, hfault, Path.isAbsolute_child dir hn, hchild]
  split at hdir
  · next habsolute =>
    rw [if_pos habsolute]
    obtain ⟨jump, hjump⟩ := exists_resolve_concat ht hending hdir
    exact ⟨jump, hjump n⟩
  · next habsolute =>
    rw [if_neg habsolute]
    split at hdir
    · next hworking =>
      rw [if_pos hworking]
      obtain ⟨jump, hjump⟩ := exists_resolve_concat ht hending hdir
      exact ⟨jump, hjump n⟩
    · cases hdir

/-- The path of a child leads to what its directory holds under its name, unless that is a link and
is followed. -/
theorem locate_child {dir : Path}
    (hdir : fs.locate .followed dir = .ok (.entry p (.directory access)))
    (hsearch : fs.isSearchable p = true) (hfault : (dir.child n).fault? = none)
    (hnode : fs.node? (n :: p) = some node)
    (hkept : ending = .kept ∨ ending = .followed ∧ ∀ target, node ≠ .link target) :
    fs.locate ending (dir.child n) = .ok (.entry (n :: p) node) := by
  have hending : ending ≠ .written := by rcases hkept with rfl | ⟨rfl, -⟩ <;> decide
  obtain ⟨jump, hjump⟩ :=
    exists_locate_child hdir (fs.isProperName_of_node? hnode) hfault hending
  rw [hjump, resolveWith_name hsearch hnode hkept]

/-- If the path of a child leads anywhere, then its directory can be searched. -/
theorem isSearchable_of_locate_child {dir : Path}
    (hdir : fs.locate .followed dir = .ok (.entry p (.directory access)))
    (hn : isProperName n = true) (hending : ending ≠ .written)
    (h : fs.locate ending (dir.child n) = .ok destination) : fs.isSearchable p = true := by
  obtain ⟨jump, hjump⟩ := exists_locate_child hdir hn (fault?_of_locate h) hending
  by_contra hsearch
  rw [hjump, resolveWith_denied (isEntering_of_isProperName hn).1 (by simpa using hsearch)] at h
  cases h

/-! ### What a path leads to is there -/

private theorem node?_of_resolve {links : Nat} {xs : List Name}
    (h : fs.resolve ending links d xs = .ok (.entry p node)) : fs.node? p = some node := by
  have step : ∀ jump : Place → List Name → Except IoFault Destination,
      (∀ d ys, jump d ys = .ok (.entry p node) → fs.node? p = some node) →
      ∀ xs d, fs.resolveWith ending jump d xs = .ok (.entry p node) → fs.node? p = some node := by
    intro jump hjump xs
    induction xs with
    | nil =>
      intro d hd
      rw [resolveWith] at hd
      split at hd <;> cases hd
      assumption
    | cons x xs ih =>
      intro d hd
      cases passes_of_resolveWith hd with
      | stays _ hrest | leaves _ _ hrest | directory _ _ _ hrest => exact ih _ hrest
      | vacant _ _ _ _ hend => cases hend
      | file _ _ hnode _ hend | kept _ _ hnode _ hend =>
        cases hend
        exact hnode
      | link _ _ _ _ hrest => exact hjump _ _ hrest
  induction links generalizing d xs with
  | zero => exact step _ (fun _ _ hd => by cases hd) xs d h
  | succ links ih => exact step _ (fun _ _ hd => ih hd) xs d h

theorem node?_of_locate {path : Path} (h : fs.locate ending path = .ok (.entry p node)) :
    fs.node? p = some node := by
  rw [locate, fault?_of_locate h] at h
  dsimp only at h
  split at h
  · exact node?_of_resolve h
  · split at h
    · exact node?_of_resolve h
    · cases h

theorem exists_locate_of_place {path : Path} (h : fs.place path = .ok p) :
    ∃ node, fs.locate .followed path = .ok (.entry p node) := by
  rw [place] at h
  split at h <;> cases h
  next node hlocate => exact ⟨node, hlocate⟩

/-- A path whose place is that of a directory leads to this directory. -/
theorem locate_of_place {path : Path} (h : fs.place path = .ok p) (hdir : fs.HasDirectory p) :
    ∃ access, fs.locate .followed path = .ok (.entry p (.directory access)) := by
  obtain ⟨node, hlocate⟩ := exists_locate_of_place h
  obtain ⟨access, haccess⟩ := hasDirectory_iff.mp hdir
  obtain rfl := Option.some.inj ((node?_of_locate hlocate).symm.trans haccess)
  exact ⟨access, hlocate⟩

/-! ### Listing on the way down -/

variable {dir : Path} {names : List Name}

theorem list_eq_ok_iff : fs.list dir = .ok (p, names) ↔
    (∃ access, fs.locate .followed dir = .ok (.entry p (.directory access)) ∧
      access.readable = true) ∧ fs.names p = names := by
  rw [list]
  constructor
  · intro h
    split at h <;> try cases h
    next access hlocate =>
      split at h <;> cases h
      next hread => exact ⟨⟨access, hlocate, hread⟩, rfl⟩
  · rintro ⟨⟨access, hlocate, hread⟩, rfl⟩
    rw [hlocate]
    exact if_pos hread

theorem place_of_list (h : fs.list dir = .ok (p, names)) : fs.place dir = .ok p := by
  obtain ⟨⟨access, hlocate, -⟩, -⟩ := list_eq_ok_iff.mp h
  rw [place, hlocate]

theorem hasDirectory_of_list (h : fs.list dir = .ok (p, names)) : fs.HasDirectory p := by
  obtain ⟨⟨access, hlocate, -⟩, -⟩ := list_eq_ok_iff.mp h
  exact hasDirectory_iff.mpr ⟨access, node?_of_locate hlocate⟩

theorem fault?_of_list (h : fs.list dir = .ok (p, names)) : dir.fault? = none := by
  obtain ⟨⟨_, hlocate, -⟩, -⟩ := list_eq_ok_iff.mp h
  exact fault?_of_locate hlocate

/-- If a child can be listed, then its directory can be searched. -/
theorem isSearchable_of_list_child {v : Place} {names' : List Name}
    (h : fs.list dir = .ok (p, names)) (hn : isProperName n = true)
    (hchild : fs.list (dir.child n) = .ok (v, names')) : fs.isSearchable p = true := by
  obtain ⟨⟨_, hlocate, -⟩, -⟩ := list_eq_ok_iff.mp h
  obtain ⟨⟨_, hlocate', -⟩, -⟩ := list_eq_ok_iff.mp hchild
  exact isSearchable_of_locate_child hlocate hn (by decide) hlocate'

/-- A walk that keeps links enters the directories among the entries it lists, if it can look them
up. -/
theorem isDirectoryAt_child (h : fs.list dir = .ok (p, names))
    (hfault : (dir.child n).fault? = none) (hnode : fs.node? (n :: p) = some node) :
    fs.isDirectoryAt false (dir.child n) = (fs.isSearchable p && node.isDirectory) := by
  obtain ⟨⟨access, hlocate, -⟩, -⟩ := list_eq_ok_iff.mp h
  rw [isDirectoryAt, if_neg (by decide)]
  cases hsearch : fs.isSearchable p with
  | true => rw [locate_child hlocate hsearch hfault hnode (.inl rfl), Bool.true_and]
  | false =>
    have hn := fs.isProperName_of_node? hnode
    obtain ⟨jump, hjump⟩ := exists_locate_child hlocate hn hfault (by decide : PathEnd.kept ≠ _)
    rw [hjump, resolveWith_denied (isEntering_of_isProperName hn).1 hsearch, Bool.false_and]

/-- The path of a child directory leads to the place of the child. -/
theorem place_child (h : fs.list dir = .ok (p, names)) (hsearch : fs.isSearchable p = true)
    (hfault : (dir.child n).fault? = none) (hchild : fs.HasDirectory (n :: p)) :
    fs.place (dir.child n) = .ok (n :: p) := by
  obtain ⟨access, haccess⟩ := hasDirectory_iff.mp hchild
  obtain ⟨⟨_, hlocate, -⟩, -⟩ := list_eq_ok_iff.mp h
  rw [place, locate_child hlocate hsearch hfault haccess (.inr ⟨rfl, fun _ => nofun⟩)]

theorem fault?_of_isDirectoryAt {follow : Bool} (h : fs.isDirectoryAt follow dir = true) :
    dir.fault? = none := by
  rw [isDirectoryAt] at h
  split at h
  · next hlocate => exact fault?_of_locate hlocate
  · cases h

end FileSystem

end WorkspaceWatch
