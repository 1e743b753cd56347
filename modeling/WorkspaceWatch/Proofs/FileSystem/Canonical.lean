import WorkspaceWatch.FileSystem.Canonical
import WorkspaceWatch.Proofs.FileSystem.Arrival

/-!
# What canonical paths tell

The canonical path of an entry is the path of its place, if there is one
(`FileSystem.canonicalize_of_locate`). For a path from the root, and wherever the directories above
the one in which the path begins can be searched, nothing is in the way but the length of what is
spelled out. So two entries with one canonical path are one entry, and so are two with the same
path, one of which is canonical (`FileSystem.place_eq_of_same_path`).
-/

namespace WorkspaceWatch

/-! ### The path of a place -/

theorem mem_joinSegments {ss : List (List UInt8)} {b : UInt8} (h : b ∈ Path.joinSegments ss) :
    b = slash ∨ ∃ s ∈ ss, b ∈ s := by
  induction ss with
  | nil => cases h
  | cons s ss ih =>
    cases ss with
    | nil => exact .inr ⟨s, List.mem_cons_self, h⟩
    | cons s' ss =>
      rw [Path.joinSegments, List.mem_append, List.mem_cons] at h
      rcases h with h | h | h
      · exact .inr ⟨s, List.mem_cons_self, h⟩
      · exact .inl h
      · exact (ih h).imp_right fun ⟨s, hs, hb⟩ => ⟨s, List.mem_cons_of_mem _ hs, hb⟩

/-- Joined stretches are taken apart again. -/
theorem segments_joinSegments {ss : List (List UInt8)} (hne : ss ≠ [])
    (h : ∀ s ∈ ss, slash ∉ s) : segments (Path.joinSegments ss) = ss := by
  induction ss with
  | nil => exact absurd rfl hne
  | cons s ss ih =>
    obtain ⟨hs, hss⟩ := List.forall_mem_cons.mp h
    cases ss with
    | nil => exact segments_of_notMem hs
    | cons s' ss =>
      rw [Path.joinSegments, segments_append_slash, segments_of_notMem hs,
        ih (List.cons_ne_nil _ _) hss, List.singleton_append]

namespace Place

variable {p q : Place} {n : Name}

theorem segments_path_cons (hp : IsProper (n :: p)) :
    segments (path (n :: p)).bytes = [] :: (p.reverse ++ [n]) := by
  rw [path, segments, if_pos rfl, segments_joinSegments (by simp), List.reverse_cons]
  exact fun s hs => slash_notMem_of_isProperName (hp s (List.mem_reverse.mp hs))

/-- The components of the path of a place are the root and then the names that lead to it. -/
theorem components_path (hp : p.IsProper) :
    p.path.components = .root :: p.reverse.map .name := by
  cases p with
  | nil => rfl
  | cons n p =>
    have hnames : ((p.reverse ++ [n]).filterMap Component.ofSegment?) =
        (p.reverse ++ [n]).map .name := by
      rw [← List.filterMap_eq_map]
      refine List.filterMap_congr fun s hs => ?_
      rw [← List.reverse_cons, List.mem_reverse] at hs
      exact ofSegment?_of_isProperName (hp s hs)
    have habsolute : (path (n :: p)).isAbsolute = true := rfl
    rw [Path.components, if_pos habsolute, segments_path_cons hp, List.reverse_cons, ← hnames]
    rfl

theorem eq_of_same_path (hp : p.IsProper) (hq : q.IsProper) (h : p.path.Same q.path) : p = q := by
  rw [Path.Same, components_path hp, components_path hq, List.cons_inj_right,
    (List.map_injective_iff.mpr fun _ _ => Component.name.inj).eq_iff, List.reverse_inj] at h
  exact h

/-- Nothing is wrong with the path of a place but that it may be too long. -/
theorem fault?_path_cons (hp : IsProper (n :: p)) :
    (path (n :: p)).fault? = if (path (n :: p)).Fits then none else some .nameTooLong := by
  have hnul : 0 ∉ (path (n :: p)).bytes := by
    rw [path, List.mem_cons]
    rintro (h | h)
    · cases h
    · obtain h | ⟨s, hs, h⟩ := mem_joinSegments h
      · cases h
      · have hname := hp s (List.mem_reverse.mp hs)
        simp only [isProperName, Bool.and_eq_true, List.all_eq_true, decide_eq_true_eq] at hname
        exact (hname.2 0 h).2 rfl
  have hne : (path (n :: p)).bytes ≠ [] := List.cons_ne_nil _ _
  by_cases hfits : (path (n :: p)).Fits
  · rw [if_pos hfits, Path.fault?_eq_none_iff]
    exact ⟨hnul, hfits, hne⟩
  · rw [if_neg hfits, Path.fault?, if_neg hnul, if_pos (Nat.lt_of_not_le hfits)]

end Place

namespace FileSystem

variable {fs : FileSystem} {d p q v : Place} {s n : Name} {node : Node} {todo names : List Name}
  {links k : Nat} {e : IoFault} {path : Path}
  {jump : Place → List Name → Except IoFault Destination}

/-! ### Asking for a place -/

/-- Every directory from the root to the one at `d` can be searched. -/
def IsOpen (fs : FileSystem) (d : Place) : Prop := ∀ q, q <:+ d → fs.isSearchable q = true

theorem isOpen_nil (fs : FileSystem) : fs.IsOpen [] := fun _ hq => List.suffix_nil.mp hq ▸ rfl

theorem IsOpen.tail (h : fs.IsOpen d) : fs.IsOpen d.tail := fun q hq =>
  h q (hq.trans (List.tail_suffix d))

/-- The names that lead to what exists are followed from one directory to the next. -/
private theorem resolveWith_names (jump : Place → List Name → Except IoFault Destination)
    (hnode : fs.node? (s :: (names.reverse ++ d)) = some node) :
    fs.resolveWith .kept jump d (names ++ [s]) =
        .ok (.entry (s :: (names.reverse ++ d)) node) ∨
      fs.resolveWith .kept jump d (names ++ [s]) = .error .denied ∧
        ¬fs.IsOpen (names.reverse ++ d) := by
  have hproper := isProper_of_node? hnode
  have hdirs : ∀ q, q <:+ names.reverse ++ d → fs.HasDirectory q := fun q =>
    hasDirectory_of_suffix (fs.hasDirectory_of_node? hnode)
  induction names generalizing d with
  | nil =>
    cases hsearch : fs.isSearchable d with
    | true => exact .inl (resolveWith_name hsearch hnode (.inl rfl))
    | false =>
      refine .inr ⟨resolveWith_denied ?_ hsearch, fun hopen => ?_⟩
      · exact (isEntering_of_node? hnode).1
      · simpa [hsearch] using hopen d (List.suffix_refl d)
  | cons n names ih =>
    have hplace : (n :: names).reverse ++ d = names.reverse ++ n :: d := by simp
    rw [hplace] at hnode hproper hdirs ⊢
    have hn : isProperName n = true := hproper n (by simp)
    cases hsearch : fs.isSearchable d with
    | true =>
      obtain ⟨_, haccess⟩ := hasDirectory_iff.mp (hdirs (n :: d) (List.suffix_append _ _))
      rw [List.cons_append, resolveWith_named (isEntering_of_isProperName hn) hsearch (by decide),
        haccess]
      exact ih hnode hproper hdirs
    | false =>
      refine .inr ⟨resolveWith_denied (isEntering_of_isProperName hn).1 hsearch, fun hopen => ?_⟩
      simpa [hsearch] using hopen d ((List.suffix_cons n d).trans (List.suffix_append _ _))

/-- The operating system finds an entry under the path of its place, unless it says that this path
is too long or that a directory on the way cannot be searched. -/
theorem locate_path (hnode : fs.node? (s :: d) = some node) :
    fs.locate .kept (Place.path (s :: d)) = .ok (.entry (s :: d) node) ∨
      ∃ e, fs.locate .kept (Place.path (s :: d)) = .error e ∧
        (fs.IsOpen d → e = .nameTooLong) := by
  have hproper := isProper_of_node? hnode
  by_cases hfits : (Place.path (s :: d)).Fits
  · obtain ⟨jump, hjump⟩ := exists_resolve_eq fs .kept maxLinks
    have hlocate : fs.locate .kept (Place.path (s :: d)) =
        fs.resolveWith .kept jump [] (d.reverse ++ [s]) := by
      rw [locate, Place.fault?_path_cons hproper, if_pos hfits, Place.segments_path_cons hproper,
        hjump]
      exact resolveWith_stays (.inl rfl)
    have hplace : d.reverse.reverse ++ [] = d := by simp
    rw [hlocate]
    rw [← hplace] at hnode
    have hnames := resolveWith_names (d := []) jump hnode
    rw [hplace] at hnames
    refine hnames.imp_right ?_
    rintro ⟨hdenied, hclosed⟩
    exact ⟨_, hdenied, fun hopen => absurd hopen hclosed⟩
  · refine .inr ⟨.nameTooLong, ?_, fun _ => rfl⟩
    rw [locate, Place.fault?_path_cons hproper, if_neg hfits]

/-! ### Spelling out -/

/-- Spelling out has come to `p`, or it has failed, for the length of a path unless a directory
above the one at `d` cannot be searched. -/
def SpellsTo (fs : FileSystem) (d p : Place) (result : Except IoFault Place) : Prop :=
  result = .ok p ∨ ∃ e, result = .error e ∧ (fs.IsOpen d.tail → e = .nameTooLong)

theorem exists_spell_eq (fs : FileSystem) (links : Nat) :
    ∃ jump, fs.spell links = fs.spellWith jump := by
  cases links <;> exact ⟨_, rfl⟩

theorem IsOpen.cons_tail (h : fs.IsOpen d.tail) (hsearch : fs.isSearchable d = true) :
    fs.IsOpen d := by
  intro q hq
  cases d with
  | nil => exact h q hq
  | cons name d =>
    rcases List.suffix_cons_iff.mp hq with rfl | hq
    · exact hsearch
    · exact h q hq

theorem SpellsTo.of_tail {result : Except IoFault Place} (h : fs.SpellsTo d.tail p result) :
    fs.SpellsTo d p result :=
  h.imp_right fun ⟨e, he, hlong⟩ => ⟨e, he, fun hopen => hlong hopen.tail⟩

theorem SpellsTo.of_cons {result : Except IoFault Place} (hsearch : fs.isSearchable d = true)
    (h : fs.SpellsTo (s :: d) p result) : fs.SpellsTo d p result :=
  h.imp_right fun ⟨e, he, hlong⟩ => ⟨e, he, fun hopen => hlong (hopen.cons_tail hsearch)⟩

/-- A name is spelled out by asking for the path of its place. -/
theorem SpellsTo.of_named {jump : Place → List Name → Except IoFault Place}
    (hsearch : fs.isSearchable d = true) (hnode : fs.node? (s :: d) = some node)
    (h : fs.SpellsTo d p (match node with
      | .directory _ => fs.spellWith jump (s :: d) todo
      | .file _ => if todo = [] then .ok (s :: d) else .error .notDirectory
      | .link target => if target = [] then .error .missing
        else jump (if target.head? = some slash then [] else d) (segments target ++ todo))) :
    fs.SpellsTo d p (fs.spellWith jump d (s :: todo)) := by
  obtain ⟨hempty, hdot, hup, -⟩ := isEntering_of_node? hnode
  rw [spellWith, if_neg (not_or.mpr ⟨hempty, hdot⟩), if_neg hup]
  obtain hfound | ⟨e, he, hlong⟩ := locate_path hnode
  · rw [hfound]
    cases node <;> exact h
  · rw [he]
    exact .inr ⟨e, rfl, fun hopen => hlong (hopen.cons_tail hsearch)⟩

/-- What is arrived at can be spelled out. -/
theorem Arrives.spellsTo (h : fs.Arrives k d todo p node) (hk : k ≤ links) :
    fs.SpellsTo d p (fs.spell links d todo) := by
  induction h generalizing links with
  | here =>
    obtain ⟨jump, hjump⟩ := exists_spell_eq fs links
    exact .inl (by rw [hjump, spellWith])
  | file hsearch hthere =>
    obtain ⟨jump, hjump⟩ := exists_spell_eq fs links
    rw [hjump]
    exact .of_named hsearch hthere (.inl (if_pos rfl))
  | stays hidle _ ih =>
    obtain ⟨jump, hjump⟩ := exists_spell_eq fs links
    rw [hjump, spellWith, if_pos (hidle.imp_right And.left), ← hjump]
    exact ih hk
  | leaves _ _ ih =>
    obtain ⟨jump, hjump⟩ := exists_spell_eq fs links
    rw [hjump, spellWith, if_neg (by simp), if_pos rfl, ← hjump]
    exact .of_tail (ih hk)
  | enters hsearch hthere _ ih =>
    obtain ⟨jump, hjump⟩ := exists_spell_eq fs links
    obtain ⟨_, haccess⟩ := hasDirectory_iff.mp hthere
    rw [hjump]
    refine .of_named hsearch haccess ?_
    dsimp only
    rw [← hjump]
    exact .of_cons hsearch (ih hk)
  | @follows k d p s todo n target hsearch hthere hne _ ih =>
    obtain ⟨links, rfl⟩ := Nat.exists_eq_add_of_le' hk
    refine .of_named hsearch hthere ?_
    dsimp only
    rw [if_neg hne]
    -- The target leads on from the root or from the directory in which the link is.
    refine (ih (Nat.le_of_succ_le_succ ?_)).imp_right fun ⟨e, he, hlong⟩ => ⟨e, he, fun hopen => ?_⟩
    · exact hk
    · refine hlong ?_
      split
      · exact fs.isOpen_nil
      · exact hopen

/-- **The canonical path of an entry** is the path of its place. If there is none, then one was
spelled out that is too long, or a directory above the one in which the path begins cannot be
searched. -/
theorem canonicalize_of_locate (h : fs.locate .followed path = .ok (.entry p node)) :
    fs.canonicalize path = .ok p.path ∨
      ∃ e, fs.canonicalize path = .error e ∧
        (fs.IsOpen (fs.base path).tail → e = .nameTooLong) := by
  obtain ⟨hnul, -, hne⟩ := Path.fault?_eq_none_iff.mp (fault?_of_locate h)
  have hbase := hasDirectory_base_of_locate h
  rw [locate_eq (fault?_of_locate h) hbase] at h
  obtain ⟨k, hk, harrives⟩ := exists_arrives_of_resolve hbase h
  have hcanonical : fs.canonicalize path =
      (fs.spell maxLinks (fs.base path) (segments path.bytes)).map Place.path := by
    rw [canonicalize, if_neg hnul, if_neg hne]
    rw [base] at hbase ⊢
    split
    · rfl
    · next habsolute =>
      rw [if_neg habsolute] at hbase
      rw [if_pos hbase]
  rw [hcanonical]
  obtain hspelled | ⟨e, he, hlong⟩ := harrives.spellsTo hk
  · exact .inl (by rw [hspelled]; rfl)
  · exact .inr ⟨e, by rw [he]; rfl, hlong⟩

/-! ### Paths that are spelled alike -/

/-- The names that lead to a directory lead nowhere else, with or without idle stretches. -/
private theorem eq_of_resolveWith_names
    (hnames : todo.filterMap Component.ofSegment? = names.map .name)
    (hdir : fs.HasDirectory (names.reverse ++ d))
    (h : fs.resolveWith .followed jump d todo = .ok (.entry q node)) :
    q = names.reverse ++ d := by
  induction todo generalizing d names with
  | nil =>
    obtain rfl := List.map_eq_nil_iff.mp hnames.symm
    rw [resolveWith] at h
    split at h <;> cases h
    rfl
  | cons s todo ih =>
    have hnamed : IsEntering s → ∃ rest, names = s :: rest ∧
        todo.filterMap Component.ofSegment? = rest.map .name := by
      rintro ⟨hempty, hdot, hup, -⟩
      have hs : Component.ofSegment? s = some (.name s) := by
        rw [Component.ofSegment?, if_neg (not_or.mpr ⟨hempty, hdot⟩), if_neg hup]
      rw [List.filterMap_cons_some hs] at hnames
      cases names with
      | nil => cases hnames
      | cons n rest =>
        obtain ⟨hn, hrest⟩ := List.cons.inj hnames
        exact ⟨rest, by rw [Component.name.inj hn], hrest⟩
    cases passes_of_resolveWith h with
    | stays hs hrest =>
      have hidle : Component.ofSegment? s = none := if_pos (hs.imp_right And.left)
      rw [List.filterMap_cons_none hidle] at hnames
      exact ih hnames hdir hrest
    | leaves hs =>
      subst hs
      cases names <;> cases hnames
    | kept _ _ _ hkept => cases hkept
    | directory hs _ hnode hrest =>
      obtain ⟨rest, rfl, hrest'⟩ := hnamed hs
      rw [List.reverse_cons, List.append_assoc, List.singleton_append] at hdir ⊢
      exact ih hrest' hdir hrest
    | vacant hs _ hnode | file hs _ hnode | link hs _ hnode =>
      obtain ⟨rest, rfl, -⟩ := hnamed hs
      rw [List.reverse_cons, List.append_assoc, List.singleton_append] at hdir
      obtain ⟨_, haccess⟩ :=
        hasDirectory_iff.mp (hasDirectory_of_suffix hdir (List.suffix_append _ (s :: d)))
      rw [haccess] at hnode
      cases hnode

/-- Another spelling of the path of a directory leads to this directory, if it leads anywhere. -/
theorem place_eq_of_same_path (h : fs.locate .followed path = .ok (.entry q node))
    (hdir : fs.HasDirectory p) (hsame : path.Same p.path) : q = p := by
  obtain ⟨_, haccess⟩ := hasDirectory_iff.mp hdir
  have habsolute : path.isAbsolute = true := Path.isAbsolute_of_within hsame.within rfl
  rw [Path.Same, Place.components_path (isProper_of_node? haccess), Path.components,
    if_pos habsolute, List.cons_inj_right] at hsame
  rw [locate_eq (fault?_of_locate h) (hasDirectory_base_of_locate h), base, if_pos habsolute] at h
  obtain ⟨jump, hjump⟩ := exists_resolve_eq fs .followed maxLinks
  rw [hjump] at h
  have hq := eq_of_resolveWith_names hsame (by simpa using hdir) h
  rwa [List.reverse_reverse, List.append_nil] at hq

end FileSystem

end WorkspaceWatch
