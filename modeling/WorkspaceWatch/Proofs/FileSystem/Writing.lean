import WorkspaceWatch.FileSystem.Operations
import WorkspaceWatch.Proofs.FileSystem.Descent

/-!
# What was written is read back

After a file has been written to a path, that path leads to the file (`status_of_writeContent`). The
resolution for writing and the one for reading follow the same links, and nothing but the file has
changed on the way, so they go the same way; only the end of the way may have been vacant before.

A place in the table needs a proper name, and a name that a path or a link spells is proper but for
its bytes: it holds no slash, and no NUL byte if the path and the targets of the links hold none.
-/

namespace WorkspaceWatch

/-- No stretch between slashes holds a slash. -/
theorem notMem_of_mem_segments {bs s : List UInt8} (h : s ∈ segments bs) : slash ∉ s := by
  induction bs generalizing s with
  | nil =>
    obtain rfl := List.mem_singleton.1 h
    exact List.not_mem_nil
  | cons b bs ih =>
    rw [segments] at h
    split at h
    · rcases List.mem_cons.1 h with rfl | h
      · exact List.not_mem_nil
      · exact ih h
    · next hb =>
      split at h
      · next s' ss heq =>
        rcases List.mem_cons.1 h with rfl | h
        · have hs' := ih (heq ▸ List.mem_cons_self)
          simp [hs', Ne.symm hb]
        · exact ih (heq ▸ List.mem_cons_of_mem _ h)
      · obtain rfl := List.mem_singleton.1 h
        simp [Ne.symm hb]

/-- A stretch holds only what the whole does. -/
theorem mem_of_mem_segments {bs s : List UInt8} {b : UInt8} (h : s ∈ segments bs) (hb : b ∈ s) :
    b ∈ bs := by
  induction bs generalizing s with
  | nil =>
    obtain rfl := List.mem_singleton.1 h
    exact hb
  | cons a bs ih =>
    rw [segments] at h
    split at h
    · rcases List.mem_cons.1 h with rfl | h
      · cases hb
      · exact List.mem_cons_of_mem _ (ih h hb)
    · split at h
      · next s' ss heq =>
        rcases List.mem_cons.1 h with rfl | h
        · rcases List.mem_cons.1 hb with rfl | hb
          · exact List.mem_cons_self
          · exact List.mem_cons_of_mem _ (ih (heq ▸ List.mem_cons_self) hb)
        · exact List.mem_cons_of_mem _ (ih (heq ▸ List.mem_cons_of_mem _ h) hb)
      · obtain rfl := List.mem_singleton.1 h
        rw [List.mem_singleton.1 hb]
        exact List.mem_cons_self

/-- The place to which a path leads. -/
def Destination.place : Destination → Place
  | entry p _ => p
  | vacant d name => name :: d

namespace FileSystem

variable {fs fs' : FileSystem} {ending : PathEnd} {path : Path} {place d : Place} {s : Name}
  {todo : List Name} {content : String} {destination : Destination}
  {jump jump' : Place → List Name → Except IoFault Destination}

/-! ### The way to a written file -/

/-- The second file system has a file at the place, where there was nothing else before, and else is
the first. -/
structure Wrote (fs fs' : FileSystem) (place : Place) (content : String) : Prop where
  file : fs'.node? place = some (.file content)
  rest : ∀ p, p ≠ place → fs'.node? p = fs.node? p
  before : ∀ n, fs.node? place = some n → ∃ old, n = .file old
  workingDirectory : fs'.workingDirectory = fs.workingDirectory

theorem Wrote.write {old : String} (h : fs.node? place = some (.file old)) (content : String) :
    Wrote fs (fs.write place content) place content where
  file := by rw [node?_write h, if_pos rfl]
  rest p hp := by rw [node?_write h, if_neg hp]
  before n hn := ⟨old, Option.some.inj (hn.symm.trans h)⟩
  workingDirectory := rfl

theorem Wrote.insert (h : fs.IsFree d s) (content : String) :
    Wrote fs (fs.insert d s (.file content)) (s :: d) content where
  file := by rw [node?_insert h, if_pos rfl]
  rest p hp := by rw [node?_insert h, if_neg hp]
  before n hn := by
    rw [h.1] at hn
    cases hn
  workingDirectory := by rw [FileSystem.insert, dif_pos h]

/-- Whatever is not a file is where it was. -/
theorem Wrote.node?_eq {p : Place} {n : Node} (h : Wrote fs fs' place content)
    (hn : fs.node? p = some n) (hfile : ∀ old, n ≠ .file old) : fs'.node? p = some n := by
  rw [h.rest p, hn]
  rintro rfl
  obtain ⟨old, hold⟩ := h.before n hn
  exact hfile old hold

theorem Wrote.isSearchable {p : Place} (h : Wrote fs fs' place content)
    (hsearch : fs.isSearchable p = true) : fs'.isSearchable p = true := by
  obtain ⟨access, haccess, hsearch⟩ := isSearchable_iff.1 hsearch
  exact isSearchable_iff.2 ⟨access, h.node?_eq haccess (by simp), hsearch⟩

private theorem resolveWith_wrote (h : Wrote fs fs' place content)
    (hjump : ∀ d ys, jump d ys = .ok destination →
      jump' d ys = .ok (.entry place (.file content)))
    (hplace : destination.place = place)
    (hwrite : fs.resolveWith .written jump d todo = .ok destination) :
    fs'.resolveWith .followed jump' d todo = .ok (.entry place (.file content)) := by
  induction todo generalizing d with
  | nil =>
    rw [resolveWith] at hwrite ⊢
    split at hwrite <;> cases hwrite
    obtain rfl : d = place := hplace
    rw [h.file]
  | cons s todo ih =>
    cases passes_of_resolveWith hwrite with
    | stays hs hrest =>
      rw [resolveWith_stays (hs.imp_right (And.imp_right h.isSearchable))]
      exact ih hrest
    | leaves hs hsearch hrest =>
      rw [resolveWith_leaves hs (h.isSearchable hsearch)]
      exact ih hrest
    -- The way ends here, at the place where the content was put.
    | vacant hs hsearch _ htodo hend | file hs hsearch _ htodo hend =>
      subst hend hplace
      have hfile : fs'.node? (s :: d) = some (.file content) := h.file
      rw [resolveWith_enters hs (h.isSearchable hsearch), htodo, hfile]
      rfl
    | directory hs hsearch hnode hrest =>
      rw [resolveWith_enters hs (h.isSearchable hsearch), h.node?_eq hnode (by simp)]
      exact ih hrest
    | kept _ _ _ hkept => cases hkept
    | link hs hsearch hnode htarget hrest =>
      rw [resolveWith_enters hs (h.isSearchable hsearch), h.node?_eq hnode (by simp)]
      dsimp only
      rw [if_neg htarget]
      exact hjump _ _ hrest

/-- Where the resolution for writing has led, there the file is found. -/
theorem locate_wrote (h : Wrote fs fs' place content) (hplace : destination.place = place)
    (hwrite : fs.locate .written path = .ok destination) :
    fs'.locate .followed path = .ok (.entry place (.file content)) := by
  have hresolve : ∀ links d todo, fs.resolve .written links d todo = .ok destination →
      fs'.resolve .followed links d todo = .ok (.entry place (.file content)) := by
    intro links
    induction links with
    | zero => exact fun d todo => resolveWith_wrote h (fun _ _ hjump => by cases hjump) hplace
    | succ links ih => exact fun d todo => resolveWith_wrote h ih hplace
  have hfault := fault?_of_locate hwrite
  rw [locate, hfault] at hwrite ⊢
  dsimp only at hwrite ⊢
  split at hwrite
  · next habsolute =>
    rw [if_pos habsolute]
    exact hresolve _ _ _ hwrite
  · next habsolute =>
    rw [if_neg habsolute]
    split at hwrite
    · next hworking =>
      obtain ⟨_, haccess⟩ := hasDirectory_iff.1 hworking
      rw [h.workingDirectory, if_pos (hasDirectory_iff.2 ⟨_, h.node?_eq haccess (by simp)⟩)]
      exact hresolve _ _ _ hwrite
    · cases hwrite

/-! ### A vacant end is free -/

/-- No target of a link holds a NUL byte. -/
def HasProperLinks (fs : FileSystem) : Prop :=
  ∀ p target, fs.node? p = some (.link target) → 0 ∉ target

/-- The stretch holds neither a slash nor a NUL byte. -/
def IsClean (s : Name) : Prop := slash ∉ s ∧ 0 ∉ s

theorem isClean_of_mem_segments {bs : List UInt8} (hbs : 0 ∉ bs) : ∀ s ∈ segments bs, IsClean s :=
  fun _ hs => ⟨notMem_of_mem_segments hs, fun h0 => hbs (mem_of_mem_segments hs h0)⟩

theorem isProperName_of_isEntering (hs : IsEntering s) (hclean : IsClean s) :
    isProperName s = true := by
  obtain ⟨hnil, hdot, hup, hlength⟩ := hs
  have hall : ∀ b ∈ s, b ≠ slash ∧ b ≠ 0 := fun b hb =>
    ⟨fun h => hclean.1 (h ▸ hb), fun h => hclean.2 (h ▸ hb)⟩
  simpa [isProperName, hnil, hdot, hup, hlength] using hall

private theorem isFree_of_resolveWith {d' : Place} {name : Name} (hlinks : fs.HasProperLinks)
    (hjump : ∀ d ys, fs.HasDirectory d → (∀ s ∈ ys, IsClean s) →
      jump d ys = .ok (.vacant d' name) → fs.IsFree d' name)
    (hd : fs.HasDirectory d) (hclean : ∀ s ∈ todo, IsClean s)
    (h : fs.resolveWith ending jump d todo = .ok (.vacant d' name)) : fs.IsFree d' name := by
  induction todo generalizing d with
  | nil =>
    rw [resolveWith] at h
    split at h <;> cases h
  | cons s todo ih =>
    obtain ⟨hs, htodo⟩ := List.forall_mem_cons.1 hclean
    cases passes_of_resolveWith h with
    | stays _ hrest => exact ih hd htodo hrest
    | leaves _ _ hrest => exact ih (hasDirectory_tail hd) htodo hrest
    | vacant hname _ hnode _ hend =>
      cases hend
      exact ⟨hnode, hd, isProperName_of_isEntering hname hs⟩
    | directory _ _ hnode hrest => exact ih (hasDirectory_iff.2 ⟨_, hnode⟩) htodo hrest
    | file _ _ _ _ hend | kept _ _ _ _ hend => cases hend
    | link _ _ hnode _ hrest =>
      refine hjump _ _ ?_ ?_ hrest
      · split
        · rfl
        · exact hd
      · intro s hs
        rcases List.mem_append.1 hs with hs | hs
        · exact isClean_of_mem_segments (hlinks _ _ hnode) s hs
        · exact htodo s hs

/-- A vacant end of a path is a free place. -/
theorem isFree_of_locate {name : Name} (hlinks : fs.HasProperLinks)
    (h : fs.locate ending path = .ok (.vacant d name)) : fs.IsFree d name := by
  have hresolve : ∀ links place todo, fs.HasDirectory place → (∀ s ∈ todo, IsClean s) →
      fs.resolve ending links place todo = .ok (.vacant d name) → fs.IsFree d name := by
    intro links
    induction links with
    | zero => exact fun _ _ => isFree_of_resolveWith hlinks fun _ _ _ _ => nofun
    | succ links ih => exact fun _ _ => isFree_of_resolveWith hlinks ih
  have hfault := fault?_of_locate h
  have hclean : ∀ s ∈ segments path.bytes, IsClean s := by
    refine isClean_of_mem_segments fun h0 => ?_
    rw [Path.fault?, if_pos h0] at hfault
    cases hfault
  rw [locate, hfault] at h
  dsimp only at h
  split at h
  · exact hresolve _ [] _ (hasDirectory_iff.2 ⟨_, rfl⟩) hclean h
  · split at h
    · next hworking => exact hresolve _ _ _ hworking hclean h
    · cases h

/-! ### Reading back -/

/-- **What was written is read back.** -/
theorem status_of_writeContent (hlinks : fs.HasProperLinks)
    (h : fs.writeContent path content = .ok fs') : fs'.status path = .ok (.file content) := by
  rw [writeContent] at h
  split at h
  · next hlocate =>
    cases h
    rw [status, locate_wrote (.insert (isFree_of_locate hlinks hlocate) content) rfl hlocate]
  · next hlocate =>
    cases h
    rw [status, locate_wrote (.write (node?_of_locate hlocate) content) rfl hlocate]
  · cases h
  · cases h

/-- New directories are no links. -/
theorem HasProperLinks.insert_directory (h : fs.HasProperLinks) (d : Place) (name : Name)
    (access : Access) : (fs.insert d name (.directory access)).HasProperLinks := by
  intro p target hp
  by_cases hfree : fs.IsFree d name
  · rw [node?_insert hfree] at hp
    split at hp
    · cases hp
    · exact h p target hp
  · rw [FileSystem.insert, dif_neg hfree] at hp
    exact h p target hp

theorem HasProperLinks.ensureDirectory (h : fs.HasProperLinks)
    (hmade : fs.ensureDirectory path = .ok fs') : fs'.HasProperLinks := by
  rw [FileSystem.ensureDirectory, makeDirectory] at hmade
  split at hmade
  · next heq =>
    cases hmade
    split at heq <;> cases heq
    exact h.insert_directory _ _ _
  · split at hmade <;> cases hmade
    exact h

theorem HasProperLinks.makeDirectoriesWithin {levels : Nat} (h : fs.HasProperLinks)
    (hmade : FileSystem.makeDirectoriesWithin levels fs path = .ok fs') : fs'.HasProperLinks := by
  induction levels generalizing path fs' with
  | zero => exact h.ensureDirectory hmade
  | succ levels ih =>
    rw [FileSystem.makeDirectoriesWithin] at hmade
    split at hmade
    · split at hmade
      · split at hmade
        · cases hmade
        · cases hfs : FileSystem.makeDirectoriesWithin levels fs _ with
          | error e =>
            rw [hfs] at hmade
            cases hmade
          | ok fs₁ =>
            rw [hfs] at hmade
            exact (ih hfs).ensureDirectory hmade
      · cases hmade
    · exact h.ensureDirectory hmade

/-- Making directories makes no links. -/
theorem HasProperLinks.makeDirectories (h : fs.HasProperLinks)
    (hmade : fs.makeDirectories path = .ok fs') : fs'.HasProperLinks := by
  rw [FileSystem.makeDirectories] at hmade
  split at hmade
  · cases hmade
    exact h
  · exact h.makeDirectoriesWithin hmade

end FileSystem

end WorkspaceWatch
