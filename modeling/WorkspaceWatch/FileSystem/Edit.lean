import WorkspaceWatch.FileSystem.Basic

/-!
# Changing a file system

The three elementary changes: an entry appears at a free place, the tree at a place disappears, the
tree at a place moves to a free place. `node?_insert`, `node?_removeTree`, `node?_moveTree` and
`exists_of_node?_moveTree` say what is where afterwards. A change whose conditions are not met
leaves the file system as it is. Besides, a file may get another content (`node?_write`).
-/

namespace WorkspaceWatch

namespace FileSystem

/-- Whatever lies below a place has its own place's parents in the table, up to that place. -/
theorem isSome_node?_of_append (fs : FileSystem) {pre d : Place} {n : Node}
    (h : fs.node? (pre ++ d) = some n) : (fs.node? d).isSome = true := by
  induction pre generalizing n with
  | nil => simp_all
  | cons name pre ih =>
    have hd := fs.hasDirectory_of_node? h
    rw [HasDirectory, Option.any_eq_true] at hd
    obtain ⟨m, hm, _⟩ := hd
    exact ih hm

private theorem any_nodeIn?_mono {es es' : List (Place × Node)} {p : Place}
    (hes : (es.map Prod.fst).Nodup) (hes' : (es'.map Prod.fst).Nodup)
    (hsub : ∀ n, n.isDirectory = true → (p, n) ∈ es → (p, n) ∈ es')
    (h : (nodeIn? es p).any Node.isDirectory = true) :
    (nodeIn? es' p).any Node.isDirectory = true := by
  match p with
  | [] => simpa [nodeIn?] using h
  | name :: d =>
    rw [Option.any_eq_true] at h ⊢
    obtain ⟨n, hn, hdir⟩ := h
    refine ⟨n, ?_, hdir⟩
    have hmem := (find?_eq_some_iff hes).1 hn
    exact (find?_eq_some_iff hes').2 (hsub n hdir hmem)

/-! ### An entry appears -/

/-- A new entry may be called `name` in the directory at `d`. -/
def IsFree (fs : FileSystem) (d : Place) (name : Name) : Prop :=
  fs.node? (name :: d) = none ∧ fs.HasDirectory d ∧ isProperName name = true

instance (fs : FileSystem) (d : Place) (name : Name) : Decidable (fs.IsFree d name) :=
  inferInstanceAs (Decidable (_ ∧ _ ∧ _))

private theorem notMem_of_isFree {fs : FileSystem} {d : Place} {name : Name}
    (h : fs.IsFree d name) (n : Node) : (name :: d, n) ∉ fs.entries := fun hmem => by
  have := (node?_eq_some_iff fs (by simp)).2 hmem
  rw [h.1] at this
  cases this

private theorem nodup_snoc {fs : FileSystem} {d : Place} {name : Name} (h : fs.IsFree d name)
    (n : Node) : ((fs.entries ++ [(name :: d, n)]).map Prod.fst).Nodup := by
  rw [List.map_append, List.nodup_append]
  refine ⟨fs.nodup, by simp, ?_⟩
  rintro p hp q hq rfl
  obtain ⟨⟨p, m⟩, hmem, rfl⟩ := List.mem_map.1 hp
  simp only [List.map_cons, List.map_nil, List.mem_singleton] at hq
  subst hq
  exact notMem_of_isFree h m hmem

/-- The entry `n` appears under `name` in the directory at `d`. -/
def insert (fs : FileSystem) (d : Place) (name : Name) (n : Node) : FileSystem :=
  if h : fs.IsFree d name then
    { fs with
      entries := fs.entries ++ [(name :: d, n)]
      nodup := nodup_snoc h n
      rooted := by
        rw [List.all_eq_true]
        intro e he
        have hmono : ∀ p, (nodeIn? fs.entries p).any Node.isDirectory = true →
            (nodeIn? (fs.entries ++ [(name :: d, n)]) p).any Node.isDirectory = true := fun p =>
          any_nodeIn?_mono fs.nodup (nodup_snoc h n) fun m _ hm => List.mem_append_left _ hm
        rcases List.mem_append.1 he with he | he
        · have hr := List.all_eq_true.1 fs.rooted e he
          obtain ⟨p, m⟩ := e
          match p, hr with
          | name' :: d', hr =>
            rw [isRootedIn_cons] at hr ⊢
            exact ⟨hr.1, hmono _ hr.2⟩
        · rw [List.mem_singleton] at he
          subst he
          rw [isRootedIn_cons]
          exact ⟨h.2.2, hmono _ h.2.1⟩ }
  else fs

theorem node?_insert {fs : FileSystem} {d : Place} {name : Name} (h : fs.IsFree d name) (n : Node)
    (p : Place) : (fs.insert d name n).node? p = if p = name :: d then some n else fs.node? p := by
  have hent : (fs.insert d name n).entries = fs.entries ++ [(name :: d, n)] := by
    rw [insert, dif_pos h]
  match p with
  | [] => simp
  | name' :: d' =>
    apply Option.ext
    intro m
    rw [node?_eq_some_iff _ (by simp), hent, List.mem_append, List.mem_singleton]
    split
    · next heq =>
      rw [heq]
      constructor
      · rintro (hm | hm)
        · exact absurd hm (notMem_of_isFree h m)
        · cases hm; rfl
      · intro hm
        cases hm
        exact Or.inr rfl
    · next hne =>
      rw [node?_eq_some_iff _ (by simp)]
      exact ⟨fun hm => hm.resolve_right fun heq => hne (congrArg Prod.fst heq), Or.inl⟩

/-! ### A tree disappears -/

/-- The tree at `p` disappears, `p` included. -/
def removeTree (fs : FileSystem) (p : Place) : FileSystem where
  workingDirectory := fs.workingDirectory
  entries := fs.entries.filter fun e => !p.isSuffixOf e.1
  nodup := List.Nodup.sublist (List.Sublist.map _ List.filter_sublist) fs.nodup
  rooted := by
    have hnodup := List.Nodup.sublist
      (List.Sublist.map Prod.fst (List.filter_sublist (p := fun e => !p.isSuffixOf e.1))) fs.nodup
    rw [List.all_eq_true]
    intro e he
    obtain ⟨hmem, hout⟩ := List.mem_filter.1 he
    have hr := List.all_eq_true.1 fs.rooted e hmem
    obtain ⟨q, m⟩ := e
    match q, hr, hout with
    | name :: d, hr, hout =>
      rw [isRootedIn_cons] at hr ⊢
      refine ⟨hr.1, any_nodeIn?_mono fs.nodup hnodup (fun n _ hn => ?_) hr.2⟩
      refine List.mem_filter.2 ⟨hn, ?_⟩
      simp only [Bool.not_eq_true', Bool.eq_false_iff, ne_eq, List.isSuffixOf_iff_suffix] at hout ⊢
      exact fun hs => hout (hs.trans (List.suffix_cons _ _))

theorem node?_removeTree (fs : FileSystem) (p q : Place) (hq : q ≠ []) :
    (fs.removeTree p).node? q = if p <:+ q then none else fs.node? q := by
  apply Option.ext
  intro m
  rw [node?_eq_some_iff _ hq, removeTree]
  simp only [List.mem_filter, Bool.not_eq_true', Bool.eq_false_iff, ne_eq,
    List.isSuffixOf_iff_suffix]
  split
  · next h => simp [h]
  · next h => simp [h, node?_eq_some_iff fs hq]

/-! ### A tree moves -/

/-- Where a place lies after the tree at `a` has moved to `b`. -/
def movedPlace (a b p : Place) : Place :=
  if a <:+ p then p.take (p.length - a.length) ++ b else p

theorem movedPlace_append (a b pre : Place) : movedPlace a b (pre ++ a) = pre ++ b := by
  simp [movedPlace]

theorem movedPlace_of_not_suffix {a p : Place} (b : Place) (h : ¬a <:+ p) :
    movedPlace a b p = p := if_neg h

/-- The tree at `a` may move to `name` in the directory at `d`: something is at `a`, the new place
is free, and it does not lie within the tree that moves. -/
def CanMove (fs : FileSystem) (a d : Place) (name : Name) : Prop :=
  a ≠ [] ∧ (fs.node? a).isSome = true ∧ fs.IsFree d name ∧ ¬a <:+ d

instance (fs : FileSystem) (a d : Place) (name : Name) : Decidable (fs.CanMove a d name) :=
  inferInstanceAs (Decidable (_ ∧ _ ∧ _ ∧ _))

private theorem movedPlace_inj {fs : FileSystem} {a d : Place} {name : Name}
    (h : fs.CanMove a d name) {p q : Place} {m n : Node} (hp : (p, m) ∈ fs.entries)
    (hq : (q, n) ∈ fs.entries) (heq : movedPlace a (name :: d) p = movedPlace a (name :: d) q) :
    p = q := by
  have hnew : ∀ pre k, (pre ++ name :: d, k) ∉ fs.entries := fun pre k hmem => by
    have := fs.isSome_node?_of_append ((node?_eq_some_iff fs (by simp)).2 hmem)
    rw [h.2.2.1.1] at this
    cases this
  by_cases hap : a <:+ p <;> by_cases haq : a <:+ q
  · obtain ⟨pre, rfl⟩ := hap
    obtain ⟨pre', rfl⟩ := haq
    rw [movedPlace_append, movedPlace_append] at heq
    rw [List.append_cancel_right heq]
  · obtain ⟨pre, rfl⟩ := hap
    rw [movedPlace_append, movedPlace_of_not_suffix _ haq] at heq
    exact absurd (heq ▸ hq) (hnew pre n)
  · obtain ⟨pre, rfl⟩ := haq
    rw [movedPlace_append, movedPlace_of_not_suffix _ hap] at heq
    exact absurd (heq ▸ hp) (hnew pre m)
  · rwa [movedPlace_of_not_suffix _ hap, movedPlace_of_not_suffix _ haq] at heq

/-- The table after the tree at `a` has moved to `b`. -/
private def movedEntries (fs : FileSystem) (a b : Place) : List (Place × Node) :=
  fs.entries.map fun e => (movedPlace a b e.1, e.2)

private theorem nodup_movedEntries {fs : FileSystem} {a d : Place} {name : Name}
    (h : fs.CanMove a d name) : ((movedEntries fs a (name :: d)).map Prod.fst).Nodup := by
  have key : ∀ es : List (Place × Node), (∀ e ∈ es, e ∈ fs.entries) → (es.map Prod.fst).Nodup →
      (es.map fun e => movedPlace a (name :: d) e.1).Nodup := by
    intro es
    induction es with
    | nil => simp
    | cons e es ih =>
      intro hsub hnd
      rw [List.map_cons, List.nodup_cons] at hnd ⊢
      refine ⟨fun hmem => ?_, ih (fun e he => hsub e (List.mem_cons_of_mem _ he)) hnd.2⟩
      obtain ⟨e', he', heq⟩ := List.mem_map.1 hmem
      have := movedPlace_inj h (hsub e' (List.mem_cons_of_mem _ he'))
        (hsub e List.mem_cons_self) heq
      exact hnd.1 (this ▸ List.mem_map_of_mem he')
  have := key fs.entries (fun _ he => he) fs.nodup
  rwa [movedEntries, List.map_map]

/-- The tree at `a` moves to `name` in the directory at `d`. -/
def moveTree (fs : FileSystem) (a d : Place) (name : Name) : FileSystem :=
  if h : fs.CanMove a d name then
    { fs with
      entries := movedEntries fs a (name :: d)
      nodup := nodup_movedEntries h
      rooted := by
        -- A directory stays a directory at the place to which it moves.
        have hdir : ∀ p, (nodeIn? fs.entries p).any Node.isDirectory = true →
            (nodeIn? (movedEntries fs a (name :: d)) (movedPlace a (name :: d) p)).any
              Node.isDirectory = true := by
          intro p hp
          match p with
          | [] =>
            rw [movedPlace_of_not_suffix _ fun hs => h.1 (List.suffix_nil.1 hs)]
            rfl
          | name' :: d' =>
            rw [Option.any_eq_true] at hp ⊢
            obtain ⟨n, hn, hn'⟩ := hp
            have hmem : (movedPlace a (name :: d) (name' :: d'), n) ∈
                movedEntries fs a (name :: d) :=
              List.mem_map.2 ⟨(name' :: d', n), (find?_eq_some_iff fs.nodup).1 hn, rfl⟩
            refine ⟨n, ?_, hn'⟩
            cases hm : movedPlace a (name :: d) (name' :: d') with
            | nil =>
              exfalso
              unfold movedPlace at hm
              split at hm <;> simp at hm
            | cons x xs =>
              rw [hm] at hmem
              exact (find?_eq_some_iff (nodup_movedEntries h)).2 hmem
        rw [List.all_eq_true]
        rintro ⟨q, m⟩ hq
        obtain ⟨⟨p, m⟩, hp, heq⟩ := List.mem_map.1 hq
        cases heq
        have hr := List.all_eq_true.1 fs.rooted _ hp
        match p, hr with
        | name' :: d', hr =>
          rw [isRootedIn_cons] at hr
          by_cases hs : a <:+ name' :: d'
          · obtain ⟨pre, hpre⟩ := hs
            match pre, hpre with
            | [], hpre =>
              rw [← hpre, movedPlace_append a (name :: d) [], List.nil_append, isRootedIn_cons]
              refine ⟨h.2.2.1.2.2, ?_⟩
              have := hdir d h.2.2.1.2.1
              rwa [movedPlace_of_not_suffix _ h.2.2.2] at this
            | x :: pre, hpre =>
              rw [← hpre, movedPlace_append, List.cons_append, isRootedIn_cons]
              obtain ⟨rfl, rfl⟩ := List.cons.inj hpre
              have := hdir (pre ++ a) hr.2
              rw [movedPlace_append] at this
              exact ⟨hr.1, this⟩
          · rw [movedPlace_of_not_suffix _ hs, isRootedIn_cons]
            have hs' : ¬a <:+ d' := fun hs' => hs (hs'.trans (List.suffix_cons _ _))
            have := hdir d' hr.2
            rw [movedPlace_of_not_suffix _ hs'] at this
            exact ⟨hr.1, this⟩ }
  else fs

/-- Everything that was in the table is found at the place to which it moved. -/
theorem node?_moveTree {fs : FileSystem} {a d : Place} {name : Name} (h : fs.CanMove a d name)
    {p : Place} {n : Node} (hp : p ≠ []) (hn : fs.node? p = some n) :
    (fs.moveTree a d name).node? (movedPlace a (name :: d) p) = some n := by
  have hent : (fs.moveTree a d name).entries = movedEntries fs a (name :: d) := by
    rw [moveTree, dif_pos h]
  have hne : movedPlace a (name :: d) p ≠ [] := by
    unfold movedPlace
    split <;> simp [hp]
  rw [node?_eq_some_iff _ hne, hent]
  exact List.mem_map.2 ⟨(p, n), (node?_eq_some_iff fs hp).1 hn, rfl⟩

/-- Nothing else is found afterwards. -/
theorem exists_of_node?_moveTree {fs : FileSystem} {a d : Place} {name : Name}
    (h : fs.CanMove a d name) {q : Place} {n : Node} (hq : q ≠ [])
    (hn : (fs.moveTree a d name).node? q = some n) :
    ∃ p, fs.node? p = some n ∧ movedPlace a (name :: d) p = q := by
  have hent : (fs.moveTree a d name).entries = movedEntries fs a (name :: d) := by
    rw [moveTree, dif_pos h]
  rw [node?_eq_some_iff _ hq, hent] at hn
  obtain ⟨⟨p, m⟩, hmem, heq⟩ := List.mem_map.1 hn
  obtain ⟨hmoved, rfl⟩ := Prod.mk.inj heq
  have hp : p ≠ [] := fun hnil => by
    have hr := List.all_eq_true.1 fs.rooted _ hmem
    rw [hnil] at hr
    cases hr
  exact ⟨p, (node?_eq_some_iff fs hp).2 hmem, hmoved⟩

/-! ### A file is written -/

/-- The entry at a place with another content, if it is a file. -/
private def rewritten (p : Place) (content : String) (e : Place × Node) : Place × Node :=
  match e.2 with
  | .file old => (e.1, .file (if e.1 = p then content else old))
  | n => (e.1, n)

@[simp] private theorem fst_rewritten (p : Place) (content : String) (e : Place × Node) :
    (rewritten p content e).1 = e.1 := by
  unfold rewritten
  split <;> rfl

/-- The file at `p` gets another content. -/
def write (fs : FileSystem) (p : Place) (content : String) : FileSystem where
  workingDirectory := fs.workingDirectory
  entries := fs.entries.map (rewritten p content)
  nodup := by simpa [Function.comp_def] using fs.nodup
  rooted := by
    have hnodup : ((fs.entries.map (rewritten p content)).map Prod.fst).Nodup := by
      simpa [Function.comp_def] using fs.nodup
    rw [List.all_eq_true]
    intro e he
    obtain ⟨⟨q, m⟩, hmem, rfl⟩ := List.mem_map.1 he
    have hr := List.all_eq_true.1 fs.rooted _ hmem
    match q, hr with
    | name :: d, hr =>
      have hfst : rewritten p content (name :: d, m) =
          (name :: d, (rewritten p content (name :: d, m)).2) := by
        rw [Prod.ext_iff]
        simp
      rw [hfst, isRootedIn_cons]
      rw [isRootedIn_cons] at hr
      refine ⟨hr.1, any_nodeIn?_mono fs.nodup hnodup (fun n hdir hn => ?_) hr.2⟩
      refine List.mem_map.2 ⟨_, hn, ?_⟩
      cases n <;> simp_all [rewritten, Node.isDirectory]

/-- Only the file at the place is another one. -/
theorem node?_write {fs : FileSystem} {p : Place} {old : String} (h : fs.node? p = some (.file old))
    (content : String) (q : Place) :
    (fs.write p content).node? q = if q = p then some (.file content) else fs.node? q := by
  have hp : p ≠ [] := by
    rintro rfl
    cases h
  match q with
  | [] => rw [if_neg (Ne.symm hp), node?_root, node?_root]
  | name :: d =>
    refine Option.ext fun m => ?_
    have hmem : (fs.write p content).node? (name :: d) = some m ↔
        ∃ n, fs.node? (name :: d) = some n ∧
          rewritten p content (name :: d, n) = (name :: d, m) := by
      rw [node?_eq_some_iff _ (by simp), write, List.mem_map]
      constructor
      · rintro ⟨⟨q, n⟩, hn, heq⟩
        obtain rfl : q = name :: d := by
          have hfst := congrArg Prod.fst heq
          rwa [fst_rewritten] at hfst
        exact ⟨n, (node?_eq_some_iff fs (by simp)).2 hn, heq⟩
      · rintro ⟨n, hn, heq⟩
        exact ⟨_, (node?_eq_some_iff fs (by simp)).1 hn, heq⟩
    rw [hmem]
    split
    · next heq =>
      rw [heq, h]
      simp [rewritten]
    · next hne =>
      have hsame (n : Node) : rewritten p content (name :: d, n) = (name :: d, n) := by
        cases n <;> simp [rewritten, hne]
      simp [hsame]

end FileSystem

end WorkspaceWatch
