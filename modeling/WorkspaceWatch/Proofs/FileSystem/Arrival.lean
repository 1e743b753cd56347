import WorkspaceWatch.Proofs.FileSystem.Trail
import WorkspaceWatch.Proofs.FileSystem.Writing

/-!
# Where links lead in the end

`FileSystem.Arrives` says what stretches of a path lead to if every link is followed, the last one
included, and counts the links. It is a finite derivation: a link whose target is missing has none,
and neither has one that leads back to itself. Something is found at a path exactly if the path
arrives with no more links than are followed (`FileSystem.hasEntry_iff`).

A path that ends in a link is resolved without following it as far as the link
(`FileSystem.EndsInLink`), and any other path as if links were followed
(`FileSystem.locate_kept`). So what is found at a path that ends in a link depends on where the
link points (`FileSystem.Points`) and on how many links were followed before it
(`FileSystem.EndsInLink.hasEntry_iff`).
-/

namespace WorkspaceWatch

namespace FileSystem

variable {fs : FileSystem} {d e p q : Place} {s : Name} {todo xs ys : List Name} {k links : Nat}
  {n : Node} {target : List UInt8}

/-! ### Arriving -/

namespace Arrives

/-- **Resolution arrives** if it may follow as many links as that takes, and says otherwise that
there are too many. -/
theorem resolve_eq (h : fs.Arrives k d todo p n) (links : Nat) :
    fs.resolve .followed links d todo =
      if k ≤ links then .ok (.entry p n) else .error .tooManyLinks := by
  induction h generalizing links with
  | here hthere =>
    obtain ⟨jump, hjump⟩ := exists_resolve_eq fs .followed links
    rw [hjump, resolveWith, hthere, if_pos (Nat.zero_le links)]
  | file hsearch hthere =>
    obtain ⟨jump, hjump⟩ := exists_resolve_eq fs .followed links
    rw [hjump, resolveWith_enters (isEntering_of_node? hthere) hsearch, hthere,
      if_pos (Nat.zero_le links)]
    rfl
  | stays hidle _ ih =>
    obtain ⟨jump, hjump⟩ := exists_resolve_eq fs .followed links
    rw [hjump, resolveWith_stays hidle, ← hjump, ih]
  | leaves hsearch _ ih =>
    obtain ⟨jump, hjump⟩ := exists_resolve_eq fs .followed links
    rw [hjump, resolveWith_leaves rfl hsearch, ← hjump, ih]
  | enters hsearch hthere _ ih =>
    obtain ⟨jump, hjump⟩ := exists_resolve_eq fs .followed links
    obtain ⟨_, haccess⟩ := hasDirectory_iff.mp hthere
    rw [hjump, resolveWith_enters (isEntering_of_node? haccess) hsearch, haccess]
    dsimp only
    rw [← hjump, ih]
  | follows hsearch hthere hne _ ih =>
    have hs := isEntering_of_node? hthere
    cases links with
    | zero =>
      rw [resolve, resolveWith_enters hs hsearch, hthere]
      dsimp only
      rw [if_neg hne, if_neg (Nat.not_succ_le_zero _)]
    | succ links =>
      rw [resolve, resolveWith_enters hs hsearch, hthere]
      dsimp only
      rw [if_neg hne, ih]
      simp only [Nat.succ_le_succ_iff]

/-- No link is the end: all are followed. -/
theorem ne_link (h : fs.Arrives k d todo p n) (target : List UInt8) : n ≠ .link target := by
  induction h with
  | here | file => nofun
  | stays _ _ ih | leaves _ _ ih | enters _ _ _ ih | follows _ _ _ _ ih => exact ih

end Arrives

theorem hasDirectory_start (hd : fs.HasDirectory d) (target : List UInt8) :
    fs.HasDirectory (if target.head? = some slash then [] else d) := by
  split
  · rfl
  · exact hd

/-- Whatever resolution leads to, it arrives there. -/
theorem exists_arrives_of_resolve (hd : fs.HasDirectory d)
    (h : fs.resolve .followed links d todo = .ok (.entry p n)) :
    ∃ k, k ≤ links ∧ fs.Arrives k d todo p n := by
  -- A jump follows one link less than there were before it.
  have step : ∀ jump bound, (∀ d ys, fs.HasDirectory d → jump d ys = .ok (.entry p n) →
        ∃ k, k < bound ∧ fs.Arrives k d ys p n) → ∀ todo d, fs.HasDirectory d →
      fs.resolveWith .followed jump d todo = .ok (.entry p n) →
        ∃ k, k ≤ bound ∧ fs.Arrives k d todo p n := by
    intro jump bound hjump todo
    induction todo with
    | nil =>
      intro d hd hend
      obtain ⟨_, haccess⟩ := hasDirectory_iff.mp hd
      rw [resolveWith, haccess] at hend
      cases hend
      exact ⟨0, Nat.zero_le _, .here haccess⟩
    | cons s todo ih =>
      intro d hd hway
      cases passes_of_resolveWith hway with
      | stays hs hrest =>
        obtain ⟨k, hk, harrives⟩ := ih d hd hrest
        exact ⟨k, hk, .stays hs harrives⟩
      | leaves hs hsearch hrest =>
        obtain ⟨k, hk, harrives⟩ := ih _ (hasDirectory_tail hd) hrest
        exact ⟨k, hk, hs ▸ .leaves hsearch harrives⟩
      | vacant _ _ _ _ hend => cases hend
      | kept _ _ _ hkept => cases hkept
      | file _ hsearch hnode htodo hend =>
        cases hend
        exact ⟨0, Nat.zero_le _, htodo ▸ .file hsearch hnode⟩
      | directory _ hsearch hnode hrest =>
        have hdir := hasDirectory_iff.mpr ⟨_, hnode⟩
        obtain ⟨k, hk, harrives⟩ := ih _ hdir hrest
        exact ⟨k, hk, .enters hsearch hdir harrives⟩
      | @link target _ hsearch hnode htarget hrest =>
        obtain ⟨k, hk, harrives⟩ := hjump _ _ (hasDirectory_start hd target) hrest
        exact ⟨k + 1, hk, .follows hsearch hnode htarget harrives⟩
  induction links generalizing d todo with
  | zero => exact step _ 0 (fun _ _ _ hjump => by cases hjump) todo d hd h
  | succ links ih =>
    refine step _ (links + 1) (fun _ _ hd hjump => ?_) todo d hd h
    obtain ⟨k, hk, harrives⟩ := ih hd hjump
    exact ⟨k, Nat.lt_succ_of_le hk, harrives⟩

theorem resolve_eq_ok_iff (hd : fs.HasDirectory d) :
    fs.resolve .followed links d todo = .ok (.entry p n) ↔
      ∃ k, k ≤ links ∧ fs.Arrives k d todo p n := by
  constructor
  · exact exists_arrives_of_resolve hd
  · rintro ⟨k, hk, harrives⟩
    rw [harrives.resolve_eq, if_pos hk]

/-! ### Links at the end -/

/-- The stretches end in the link at `p`, and `k` links are followed before it. -/
def EndsInLink (fs : FileSystem) (k : Nat) (d : Place) (todo : List Name) (p : Place)
    (target : List UInt8) : Prop :=
  ∃ xs s e, todo = xs ++ [s] ∧ p = s :: e ∧ fs.Trail k d xs e ∧ fs.isSearchable e = true ∧
    fs.node? p = some (.link target)

/-- A link at `p` with the target leads to the node `n` at `q`, and `k` links are followed after
it. -/
def Points (fs : FileSystem) (k : Nat) (p : Place) (target : List UInt8) (q : Place) (n : Node) :
    Prop :=
  target ≠ [] ∧
    fs.Arrives k (if target.head? = some slash then [] else p.tail) (segments target) q n

namespace EndsInLink

theorem cons {d' : Place} (h : fs.EndsInLink k d' todo p target)
    (hstep : ∀ xs e, fs.Trail k d' xs e → fs.Trail k d (s :: xs) e) :
    fs.EndsInLink k d (s :: todo) p target := by
  obtain ⟨xs, s', e, rfl, rfl, htrail, hlink⟩ := h
  exact ⟨s :: xs, s', e, rfl, rfl, hstep xs e htrail, hlink⟩

theorem follows {t : List UInt8} (hsearch : fs.isSearchable d = true)
    (hthere : fs.node? (s :: d) = some (.link t)) (hne : t ≠ []) (htodo : todo ≠ [])
    (h : fs.EndsInLink k (if t.head? = some slash then [] else d) (segments t ++ todo) p target) :
    fs.EndsInLink (k + 1) d (s :: todo) p target := by
  obtain ⟨xs, s', e, hsplit, rfl, htrail, hlink⟩ := h
  obtain ⟨zs, z, rfl⟩ := List.eq_nil_or_concat todo |>.resolve_left htodo
  rw [List.concat_eq_append, ← List.append_assoc] at hsplit
  obtain ⟨rfl, hz⟩ := List.append_inj' hsplit rfl
  obtain rfl := List.singleton_inj.mp hz
  exact ⟨s :: zs, z, e, by simp, rfl, .follows hsearch hthere hne htrail, hlink⟩

/-- If the link at the end is followed too, then resolution leads to where the link points, if it
may follow all links that this takes. -/
theorem resolve_eq_ok_iff (h : fs.EndsInLink k d todo p target) :
    fs.resolve .followed links d todo = .ok (.entry q n) ↔
      ∃ k', k' + 1 + k ≤ links ∧ fs.Points k' p target q n := by
  obtain ⟨xs, s, e, rfl, rfl, htrail, hsearch, hnode⟩ := h
  have hs := isEntering_of_node? hnode
  rw [htrail.resolve_append]
  split
  · next hk =>
    obtain ⟨left, rfl⟩ := Nat.exists_eq_add_of_le' hk
    rw [Nat.add_sub_cancel]
    by_cases hne : target = []
    · refine iff_of_false ?_ ?_
      · cases left <;> simp [resolve, resolveWith_enters hs hsearch, hnode, hne]
      · rintro ⟨k', -, hpoints⟩
        exact hpoints.1 hne
    cases left with
    | zero =>
      refine iff_of_false ?_ ?_
      · simp [resolve, resolveWith_enters hs hsearch, hnode, hne]
      · rintro ⟨k', hk', -⟩
        omega
    | succ left =>
      rw [resolve, resolveWith_enters hs hsearch, hnode]
      dsimp only
      rw [if_neg hne, List.append_nil,
        FileSystem.resolve_eq_ok_iff (hasDirectory_start htrail.hasDirectory target)]
      refine exists_congr fun k' => ?_
      rw [Points, List.tail_cons, and_iff_right hne]
      exact and_congr_left' (by omega)
  · next hk =>
    refine iff_of_false ?_ ?_
    · intro hend
      cases hend
    · rintro ⟨k', hk', -⟩
      omega

end EndsInLink

/-- If a link at the end is kept, then either resolution ends at one, or nothing is different from
following it. -/
theorem resolve_kept (hd : fs.HasDirectory d) :
    fs.resolve .kept links d todo = fs.resolve .followed links d todo ∨
      ∃ k p target, k ≤ links ∧ fs.EndsInLink k d todo p target ∧
        fs.resolve .kept links d todo = .ok (.entry p (.link target)) := by
  -- Both resolutions go the same way, and beyond a link on it the same is known of their jumps.
  have step : ∀ jump jump' bound, (∀ d ys, fs.HasDirectory d → jump d ys = jump' d ys ∨
        ∃ k p target, k < bound ∧ fs.EndsInLink k d ys p target ∧
          jump d ys = .ok (.entry p (.link target))) → ∀ todo d, fs.HasDirectory d →
      fs.resolveWith .kept jump d todo = fs.resolveWith .followed jump' d todo ∨
        ∃ k p target, k ≤ bound ∧ fs.EndsInLink k d todo p target ∧
          fs.resolveWith .kept jump d todo = .ok (.entry p (.link target)) := by
    intro jump jump' bound hjump todo
    induction todo with
    | nil => exact fun d _ => .inl (by rw [resolveWith, resolveWith])
    | cons s todo ih =>
      intro d hd
      by_cases hempty : s = []
      · rw [resolveWith_stays (.inl hempty), resolveWith_stays (.inl hempty)]
        refine (ih d hd).imp_right ?_
        rintro ⟨k, p, target, hk, hends, heq⟩
        exact ⟨k, p, target, hk, hends.cons fun _ _ => .stays (.inl hempty), heq⟩
      by_cases hsearch : fs.isSearchable d = true
      case neg =>
        rw [Bool.not_eq_true] at hsearch
        exact .inl (by rw [resolveWith_denied hempty hsearch, resolveWith_denied hempty hsearch])
      by_cases hdot : s = [dot]
      · have hidle : fs.IsIdle d s := .inr ⟨hdot, hsearch⟩
        rw [resolveWith_stays hidle, resolveWith_stays hidle]
        refine (ih d hd).imp_right ?_
        rintro ⟨k, p, target, hk, hends, heq⟩
        exact ⟨k, p, target, hk, hends.cons fun _ _ => .stays hidle, heq⟩
      by_cases hup : s = [dot, dot]
      · rw [resolveWith_leaves hup hsearch, resolveWith_leaves hup hsearch]
        refine (ih d.tail (hasDirectory_tail hd)).imp_right ?_
        rintro ⟨k, p, target, hk, hends, heq⟩
        exact ⟨k, p, target, hk, hends.cons fun _ _ htrail => hup ▸ .leaves hsearch htrail, heq⟩
      by_cases hlength : maxNameLength < s.length
      · exact .inl (by simp [resolveWith, hempty, hsearch, hdot, hup, hlength])
      have hs : IsEntering s := ⟨hempty, hdot, hup, Nat.le_of_not_gt hlength⟩
      rw [resolveWith_enters hs hsearch, resolveWith_named hs hsearch (by decide)]
      cases hnode : fs.node? (s :: d) with
      | none => exact .inl rfl
      | some node =>
        cases node with
        | file content => exact .inl rfl
        | directory access =>
          have hdir := hasDirectory_iff.mpr ⟨_, hnode⟩
          refine (ih _ hdir).imp_right ?_
          rintro ⟨k, p, target, hk, hends, heq⟩
          exact ⟨k, p, target, hk, hends.cons fun _ _ => .enters hsearch hdir, heq⟩
        | link target =>
          dsimp only
          by_cases htodo : todo = []
          · subst htodo
            exact .inr ⟨0, s :: d, target, Nat.zero_le _,
              ⟨[], s, d, rfl, rfl, .arrived hd, hsearch, hnode⟩, if_pos ⟨rfl, rfl⟩⟩
          rw [if_neg fun h => htodo h.1]
          by_cases hne : target = []
          · rw [if_pos hne, if_pos hne]
            exact .inl rfl
          rw [if_neg hne, if_neg hne]
          refine (hjump _ _ (hasDirectory_start hd target)).imp_right ?_
          rintro ⟨k, p, t, hk, hends, heq⟩
          exact ⟨k + 1, p, t, hk, .follows hsearch hnode hne htodo hends, heq⟩
  induction links generalizing d todo with
  | zero => exact step _ _ 0 (fun _ _ _ => .inl rfl) todo d hd
  | succ links ih =>
    refine step _ _ (links + 1) (fun d ys hd => ?_) todo d hd
    refine (ih hd).imp_right ?_
    rintro ⟨k, p, target, hk, hends, heq⟩
    exact ⟨k, p, target, Nat.lt_succ_of_le hk, hends, heq⟩

/-! ### Paths -/

variable {path : Path}

/-- Whether a link at the end is kept or followed, a path is resolved from the same place. -/
theorem locate_kept (fs : FileSystem) (path : Path) :
    fs.locate .kept path = fs.locate .followed path ∨
      ∃ k p target, k ≤ maxLinks ∧
        fs.EndsInLink k (fs.base path) (segments path.bytes) p target ∧
        fs.locate .kept path = .ok (.entry p (.link target)) := by
  cases hfault : path.fault? with
  | some fault => exact .inl (by rw [locate, locate, hfault])
  | none =>
    by_cases hbase : fs.HasDirectory (fs.base path)
    · rw [locate_eq hfault hbase, locate_eq hfault hbase]
      exact resolve_kept hbase
    · rw [base] at hbase
      split at hbase
      · exact absurd rfl hbase
      · next habsolute =>
        refine .inl ?_
        rw [locate, locate, hfault, if_neg habsolute, if_neg habsolute, if_neg hbase,
          if_neg hbase]

/-- What is found at a path is not looked for in vain if a link at its end is kept. -/
theorem exists_locate_kept (h : fs.locate .followed path = .ok (.entry p n)) :
    ∃ q m, fs.locate .kept path = .ok (.entry q m) := by
  rcases fs.locate_kept path with hsame | ⟨k, q, target, -, -, hkept⟩
  · exact ⟨p, n, hsame.trans h⟩
  · exact ⟨q, _, hkept⟩

theorem hasEntry_iff_locate :
    fs.hasEntry path = true ↔ ∃ p n, fs.locate .followed path = .ok (.entry p n) := by
  rw [hasEntry, status]
  cases fs.locate .followed path with
  | error e => simp [Except.isOk, Except.toBool]
  | ok destination => cases destination <;> simp [Except.isOk, Except.toBool]

theorem locate_followed_ne_link :
    fs.locate .followed path ≠ .ok (.entry p (.link target)) := by
  intro h
  have hbase := hasDirectory_base_of_locate h
  rw [locate_eq (fault?_of_locate h) hbase] at h
  obtain ⟨k, -, harrives⟩ := exists_arrives_of_resolve hbase h
  exact harrives.ne_link target rfl

/-- **Something is found at a path** exactly if the path arrives somewhere with no more links than
are followed. -/
theorem hasEntry_iff : fs.hasEntry path = true ↔
    path.fault? = none ∧ fs.HasDirectory (fs.base path) ∧
      ∃ k p n, k ≤ maxLinks ∧ fs.Arrives k (fs.base path) (segments path.bytes) p n := by
  rw [hasEntry_iff_locate]
  constructor
  · rintro ⟨p, n, h⟩
    have hfault := fault?_of_locate h
    have hbase := hasDirectory_base_of_locate h
    rw [locate_eq hfault hbase] at h
    obtain ⟨k, hk, harrives⟩ := exists_arrives_of_resolve hbase h
    exact ⟨hfault, hbase, k, p, n, hk, harrives⟩
  · rintro ⟨hfault, hbase, k, p, n, hk, harrives⟩
    exact ⟨p, n, by rw [locate_eq hfault hbase, harrives.resolve_eq, if_pos hk]⟩

/-- What is found without following a link at the end is found if it is no link. -/
theorem hasEntry_of_locate_kept (h : fs.locate .kept path = .ok (.entry p n))
    (hn : ∀ target, n ≠ .link target) : fs.hasEntry path = true := by
  rw [hasEntry_iff_locate]
  rcases fs.locate_kept path with hsame | ⟨k, q, target, -, -, hkept⟩
  · exact ⟨p, n, hsame.symm.trans h⟩
  · rw [h] at hkept
    cases hkept
    exact absurd rfl (hn target)

/-- A path at which a link is found ends in this link. -/
theorem exists_endsInLink (h : fs.locate .kept path = .ok (.entry p (.link target))) :
    ∃ k, fs.EndsInLink k (fs.base path) (segments path.bytes) p target := by
  rcases fs.locate_kept path with hsame | ⟨k, q, target', -, hends, hkept⟩
  · exact absurd (hsame.symm.trans h) locate_followed_ne_link
  · rw [h] at hkept
    cases hkept
    exact ⟨k, hends⟩

/-- Something is found at a path that ends in a link exactly if the link points to something and
that takes no more links than are left. -/
theorem EndsInLink.hasEntry_iff
    (h : fs.EndsInLink k (fs.base path) (segments path.bytes) p target)
    (hkept : fs.locate .kept path = .ok (.entry p (.link target))) :
    fs.hasEntry path = true ↔
      ∃ k' q n, k' + 1 + k ≤ maxLinks ∧ fs.Points k' p target q n := by
  rw [hasEntry_iff_locate,
    locate_eq (fault?_of_locate hkept) (hasDirectory_base_of_locate hkept)]
  simp only [h.resolve_eq_ok_iff]
  constructor
  · rintro ⟨q, n, k', hk', hpoints⟩
    exact ⟨k', q, n, hk', hpoints⟩
  · rintro ⟨k', q, n, hk', hpoints⟩
    exact ⟨q, n, k', hk', hpoints⟩

end FileSystem

end WorkspaceWatch
