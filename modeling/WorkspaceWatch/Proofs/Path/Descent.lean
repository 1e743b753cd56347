import Mathlib.Data.List.Infix
import WorkspaceWatch.FileSystem.Basic

/-!
# Paths below a root

A walk spells the paths of a tree by joining names to the path at which it started. `Path.under`
is that spelling for a whole way down from a root. However the root itself is spelled, its
components are those of the root followed by the names (`Path.components_under`), so two ways down
give the same path only if they are the same way, and one path lies within another exactly if the
one way goes on from the other.
-/

namespace WorkspaceWatch

/-! ### Stretches -/

theorem segments_append_slash (a b : List UInt8) :
    segments (a ++ slash :: b) = segments a ++ segments b := by
  have hne : ∀ bs, segments bs ≠ [] := fun bs => by
    cases bs with
    | nil => simp [segments]
    | cons c bs =>
      rw [segments]
      split
      · simp
      · split <;> simp
  induction a with
  | nil => simp [segments]
  | cons c a ih =>
    rw [List.cons_append, segments, segments, ih]
    by_cases hc : c = slash
    · simp [hc]
    · rw [if_neg hc, if_neg hc]
      obtain ⟨s, ss, hs⟩ := List.exists_cons_of_ne_nil (hne a)
      simp [hs]

theorem segments_of_notMem {bs : List UInt8} (h : slash ∉ bs) : segments bs = [bs] := by
  induction bs with
  | nil => rfl
  | cons c bs ih =>
    rw [List.mem_cons, not_or] at h
    rw [segments, if_neg (Ne.symm h.1), ih h.2]

section ProperName

variable {n : Name}

theorem slash_notMem_of_isProperName (h : isProperName n = true) : slash ∉ n := by
  simp only [isProperName, Bool.and_eq_true, List.all_eq_true, decide_eq_true_eq] at h
  exact fun hmem => (h.2 slash hmem).1 rfl

theorem ofSegment?_of_isProperName (h : isProperName n = true) :
    Component.ofSegment? n = some (.name n) := by
  simp only [isProperName, Bool.and_eq_true, decide_eq_true_eq] at h
  obtain ⟨⟨⟨⟨hnil, hdot⟩, hup⟩, -⟩, -⟩ := h
  simp [Component.ofSegment?, hnil, hdot, hup]

end ProperName

/-- All names of the place are proper. -/
def Place.IsProper (p : Place) : Prop := ∀ n ∈ p, isProperName n = true

theorem Place.IsProper.tail {p : Place} (h : p.IsProper) : Place.IsProper p.tail := fun n hn =>
  h n (List.mem_of_mem_tail hn)

namespace Path

variable {n : Name}

/-! ### One step down -/

/-- A child has the bytes of its directory, perhaps a slash, and then its name. -/
theorem bytes_child (d : Path) (n : Name) : ∃ between,
    (∀ b ∈ between, b = slash) ∧ (d.child n).bytes = d.bytes ++ (between ++ n) := by
  obtain ⟨bs⟩ := d
  rcases List.eq_nil_or_concat bs with rfl | ⟨bs, b, rfl⟩
  · exact ⟨[], by simp, by simp [child]⟩
  · by_cases hb : b = slash
    · exact ⟨[], by simp, by simp [child, hb]⟩
    · exact ⟨[slash], by simp, by simp [child, hb]⟩

/-- A child has the stretches of its directory, apart from an empty one at the end, and then its
name. -/
theorem segments_child (d : Path) (h : isProperName n = true) :
    ∃ xs, (segments d.bytes = xs ∨ segments d.bytes = xs ++ [[]]) ∧
      segments (d.child n).bytes = xs ++ [n] := by
  have hn := segments_of_notMem (slash_notMem_of_isProperName h)
  obtain ⟨bs⟩ := d
  rcases List.eq_nil_or_concat bs with rfl | ⟨bs, b, rfl⟩
  · exact ⟨[], .inr rfl, by simpa [child] using hn⟩
  · by_cases hb : b = slash
    · subst hb
      refine ⟨segments bs, .inr ?_, ?_⟩
      · simpa [segments] using segments_append_slash bs []
      · simp [child, segments_append_slash, hn]
    · refine ⟨segments (bs ++ [b]), .inl (by simp), ?_⟩
      have := segments_append_slash (bs ++ [b]) n
      simpa [child, hb, hn] using this

theorem isAbsolute_child (d : Path) (h : isProperName n = true) :
    (d.child n).isAbsolute = d.isAbsolute := by
  obtain ⟨bs⟩ := d
  cases bs with
  | nil =>
    have hhead : n.head? ≠ some slash := fun hs =>
      slash_notMem_of_isProperName h (List.mem_of_mem_head? hs)
    simp [child, isAbsolute, hhead]
  | cons b bs =>
    unfold child isAbsolute
    split
    · next hnil => simp at hnil
    · split <;> rfl

/-- A child has one component more than its directory. -/
theorem components_child (d : Path) (h : isProperName n = true) :
    (d.child n).components = d.components ++ [.name n] := by
  obtain ⟨xs, hd, hchild⟩ := segments_child d h
  have hname := ofSegment?_of_isProperName h
  have hlast : [n].filterMap Component.ofSegment? = [.name n] := by simp [hname]
  have hempty : ([[]] : List (List UInt8)).filterMap Component.ofSegment? = [] := rfl
  have hdot : n ≠ [dot] := fun heq => by
    rw [heq] at hname
    cases hname
  -- The empty stretch at the end of a directory stands for no component.
  have htail : ∀ ys : List (List UInt8), (ys ++ [[]]).filterMap Component.ofSegment? =
      ys.filterMap Component.ofSegment? := fun ys => by
    rw [List.filterMap_append, hempty, List.append_nil]
  simp only [components, isAbsolute_child d h, hchild]
  split
  · rw [List.filterMap_append, hlast, ← List.cons_append]
    rcases hd with hd | hd <;> rw [hd]
    rw [htail]
  · cases xs with
    | nil => rcases hd with hd | hd <;> simpa [hd, hdot, Component.ofSegment?] using hlast
    | cons x xs =>
      have hcases : ∀ ys, (if x = [dot] then .here :: (xs ++ ys).filterMap Component.ofSegment?
          else (x :: (xs ++ ys)).filterMap Component.ofSegment?) =
          (if x = [dot] then .here :: xs.filterMap Component.ofSegment?
            else (x :: xs).filterMap Component.ofSegment?) ++
          ys.filterMap Component.ofSegment? := fun ys => by
        split
        · rw [List.filterMap_append, List.cons_append]
        · rw [← List.cons_append, List.filterMap_append]
      rcases hd with hd | hd <;> rw [hd]
      · simp only [List.cons_append]
        rw [hcases, hlast]
      · simp only [List.cons_append]
        rw [hcases, hcases, hlast, hempty, List.append_nil]

/-! ### A way down -/

/-- The path that a walk gives to what it finds at the place `p` below `root`. -/
def under (root : Path) : Place → Path
  | [] => root
  | name :: p => (root.under p).child name

@[simp] theorem under_nil (root : Path) : root.under [] = root := rfl

@[simp] theorem under_cons (root : Path) (name : Name) (p : Place) :
    root.under (name :: p) = (root.under p).child name := rfl

theorem under_append (root : Path) (p q : Place) :
    root.under (p ++ q) = (root.under q).under p := by
  induction p with
  | nil => rfl
  | cons name p ih => simp [ih]

/-- The components of a path below a root are those of the root and then the names. -/
theorem components_under (root : Path) {p : Place} (hp : p.IsProper) :
    (root.under p).components = root.components ++ p.reverse.map .name := by
  induction p with
  | nil => simp
  | cons name p ih =>
    rw [under_cons, components_child _ (hp name List.mem_cons_self),
      ih fun n hn => hp n (List.mem_cons_of_mem _ hn)]
    simp

private theorem name_injective : Function.Injective Component.name := fun _ _ h =>
  Component.name.inj h

/-- Different ways down from a root give different paths. -/
theorem same_under_iff (root : Path) {p q : Place} (hp : p.IsProper) (hq : q.IsProper) :
    (root.under p).Same (root.under q) ↔ p = q := by
  rw [Same, components_under root hp, components_under root hq, List.append_cancel_left_eq,
    (List.map_injective_iff.mpr name_injective).eq_iff, List.reverse_inj]

/-- A path below a root lies within another one exactly if the way to it leads through that one. -/
theorem within_under_iff (root : Path) {p q : Place} (hp : p.IsProper) (hq : q.IsProper) :
    (root.under p).Within (root.under q) ↔ q <:+ p := by
  rw [Within, components_under root hp, components_under root hq, List.prefix_append_right_inj,
    List.prefix_map_iff_of_injective name_injective, List.reverse_prefix]

/-! ### Children and what they lie within -/

section Within

variable {p q d : Path} {m : Name}

theorem Same.within (h : p.Same q) : p.Within q := by
  rw [Within, h]

theorem within_child (d : Path) (hn : isProperName n = true) : (d.child n).Within d := by
  rw [Within, components_child d hn]
  exact List.prefix_append _ _

theorem not_within_child (d : Path) (hn : isProperName n = true) : ¬d.Within (d.child n) := by
  intro h
  have hlength := List.IsPrefix.length_le h
  rw [components_child d hn, List.length_append] at hlength
  exact absurd hlength (by simp)

/-- If a child lies within another one, so does its directory within the other directory. -/
theorem within_of_child_within_child (hn : isProperName n = true) (hm : isProperName m = true)
    (h : (p.child n).Within (q.child m)) : p.Within q := by
  rw [Within, components_child p hn, components_child q hm] at h
  have hprefix : q.components <+: p.components ++ [.name n] := (List.prefix_append _ _).trans h
  rcases List.prefix_concat_iff.mp hprefix with heq | hp
  · -- The child of `q` is longer than the child of `p`.
    have hlength := h.length_le
    rw [List.length_append, heq] at hlength
    exact absurd hlength (by simp)
  · exact hp

/-- What lies within an absolute path is absolute. -/
theorem isAbsolute_of_within {root : Path} (h : d.Within root)
    (hroot : root.isAbsolute = true) : d.isAbsolute = true := by
  have hnone : ∀ ss, .root ∉ List.filterMap Component.ofSegment? ss := fun ss hmem => by
    obtain ⟨s, -, hs⟩ := List.mem_filterMap.mp hmem
    unfold Component.ofSegment? at hs
    split_ifs at hs <;> cases hs
  have hmem : .root ∈ d.components := h.subset (by rw [components, if_pos hroot]; simp)
  by_contra habsolute
  rw [components, if_neg habsolute] at hmem
  split at hmem
  · split at hmem
    · exact hnone _ (by simpa using hmem)
    · exact hnone _ hmem
  · cases hmem

/-! ### Paths apart -/

/-- Neither path lies within the other. -/
def Apart (p q : Path) : Prop := ¬p.Within q ∧ ¬q.Within p

theorem Apart.symm (h : p.Apart q) : q.Apart p := ⟨h.2, h.1⟩

/-- What lies within one of two paths that are apart is apart from the other. -/
theorem Apart.of_within (h : d.Apart q) (hp : p.Within d) : p.Apart q := by
  refine ⟨fun hq => ?_, fun hq => h.2 (hq.trans hp)⟩
  rcases List.prefix_or_prefix_of_prefix hp hq with hdq | hqd
  · exact h.2 hdq
  · exact h.1 hqd

theorem apart_child (d : Path) (hn : isProperName n = true) (hm : isProperName m = true)
    (hne : n ≠ m) : (d.child n).Apart (d.child m) := by
  have hnot : ∀ {n m}, isProperName n = true → isProperName m = true → n ≠ m →
      ¬(d.child n).Within (d.child m) := fun {n m} hn hm hne h => by
    rw [Within, components_child d hn, components_child d hm, List.prefix_append_right_inj] at h
    simp only [List.prefix_cons_iff, List.prefix_nil] at h
    simp_all
  exact ⟨hnot hn hm hne, hnot hm hn hne.symm⟩

end Within

end Path

end WorkspaceWatch
