import WorkspaceWatch.Proofs.Layer.Fields
import WorkspaceWatch.Proofs.Toml.Reader

/-!
# Which settings are loaded

A setting is taken from the variable that is meant for it, or else from the file, or else it has its
default. `Field.prevailing?` is that choice, made field by field without putting anything together,
and `Settings.load_eq_ok_iff` says that loading comes to the same: the layers are put on top of each
other, and only what prevails is looked at.

This needs regular sources. In a file, names may not coincide in lower case, the records of the
settings have to be tables, and their fields something else (`IsRegular`); of the variables, those
that are meant for the settings have to be meant for a field each (`IsRegularEnvironment`). A table
in the place of a field would take in whatever another layer says of it, and a name such as
`watcher.debounce_ms` at the top would be a key into a record.
-/

namespace WorkspaceWatch

namespace Layer

open Value (named HasDistinctNames)

variable {root : Value} {given : Given} {env env' : Environment}
  {members members' : List (String × Value)} {k : Field} {v : Value}

/-! ### What a file gives -/

/-- What the members of a table say of a field. -/
def Field.ofMembers? (members : List (String × Value)) : Given := fun k =>
  (named k.record members).bind fun r => named k.name r.members

/-- A table in which no two names are the same in lower case, which has tables for the records of
the settings, and in these something else than tables for the fields. Its other members do not
matter, but their names are no keys into something. -/
structure IsRegular (members : List (String × Value)) : Prop where
  distinct : HasDistinctNames members
  plain : ∀ m ∈ members, '.' ∉ m.1.toList ∧ '[' ∉ m.1.toList
  records : ∀ m ∈ members, ∀ k : Field, lower m.1 = k.record → ∃ inner, m.2 = .table inner ∧
    HasDistinctNames inner ∧ ∀ e ∈ inner, lower e.1 = k.name → ∀ t, e.2 ≠ .table t

theorem IsRegular.tail {m : String × Value} (h : IsRegular (m :: members)) : IsRegular members where
  distinct := h.distinct.tail
  plain m' hm' := h.plain m' (List.mem_cons_of_mem _ hm')
  records m' hm' := h.records m' (List.mem_cons_of_mem _ hm')

theorem ofMembers?_cons (m : String × Value) : Field.ofMembers? (m :: members) k =
    if lower m.1 = k.record then named k.name m.2.members else Field.ofMembers? members k := by
  rw [Field.ofMembers?, Value.named_cons]
  split <;> rfl

/-- What the first member says of its fields, where no other stands for the same record. -/
theorem ofMembers?_cons_or {m : String × Value} (h : HasDistinctNames (m :: members)) :
    (Field.ofMembers? (m :: members) k).or (given k) = (Field.ofMembers? members k).or
      (if lower m.1 = k.record then (named k.name m.2.members).or (given k) else given k) := by
  rw [ofMembers?_cons]
  split
  · next hk =>
    have hnone : Field.ofMembers? members k = none := by
      rw [Field.ofMembers?, Value.named_eq_none, Option.bind_none]
      intro m' hm'
      rw [← hk]
      exact h.ne_of_mem hm'
    rw [hnone, Option.none_or]
  · rfl

/-- What a table says prevails over what a root holds. -/
theorem Holds.putLayer_ofTable? (h : Holds root given) (hregular : IsRegular members) :
    ∃ root', root.putLayer (members.map fun m => (.ofText m.1.toList, m.2)) = .ok root' ∧
      Holds root' fun k => (Field.ofMembers? members k).or (given k) := by
  induction members generalizing root given with
  | nil => exact ⟨root, rfl, h⟩
  | cons m members ih =>
    obtain ⟨hdot, hbracket⟩ := hregular.plain m List.mem_cons_self
    have hset : root.set (.ofText m.1.toList) m.2 = .ok (Value.put (lower m.1) m.2 root) := by
      rw [ofText_of_notMem hdot hbracket, Value.set, Value.setAt, lower]
    obtain ⟨root', hroot', hholds⟩ :=
      ih (h.put_member (hregular.records m List.mem_cons_self)) hregular.tail
    refine ⟨root', ?_, ?_⟩
    · rw [Value.putLayer, List.map_cons, List.foldlM_cons, hset]
      exact hroot'
    · simpa only [ofMembers?_cons_or hregular.distinct] using hholds

/-! ### What the environment gives -/

/-- The name of the variable in lower case is meant for the settings. -/
def IsMarked (name : String) : Prop := variableMark.isPrefixOf (lowerText name.toList) = true

instance (name : String) : Decidable (IsMarked name) := inferInstanceAs (Decidable (_ = _))

/-- What the variables of an environment say of a field. -/
def Field.ofEnvironment? (env : Environment) : Given := fun k =>
  (env.find? fun e => lowerText e.1.toList = k.variableName).map fun e => .ofVariable e.2

/-- Every variable that is meant for the settings is meant for a field, in any letter case, and no
two are meant for the same. -/
structure IsRegularEnvironment (env : Environment) : Prop where
  known : ∀ e ∈ env, IsMarked e.1 → ∃ k : Field, lowerText e.1.toList = k.variableName
  distinct : env.Pairwise fun e e' => IsMarked e.1 → lowerText e.1.toList ≠ lowerText e'.1.toList

theorem ofVariable_ne_table (s : String) (ms : List (String × Value)) :
    Value.ofVariable s ≠ .table ms := by
  unfold Value.ofVariable
  repeat' split
  all_goals nofun

theorem ofEnvironment?_cons (e : String × String) : Field.ofEnvironment? (e :: env) k =
    if lowerText e.1.toList = k.variableName then some (.ofVariable e.2)
    else Field.ofEnvironment? env k := by
  rw [Field.ofEnvironment?, List.find?_cons]
  split <;> simp_all [Field.ofEnvironment?]

theorem ofEnvironment?_eq_none_iff : Field.ofEnvironment? env k = none ↔
    ∀ e ∈ env, lowerText e.1.toList ≠ k.variableName := by
  simp [Field.ofEnvironment?]

/-- A name that is meant for a field is meant for the settings. -/
theorem isMarked_of_variableName {name : String} (h : lowerText name.toList = k.variableName) :
    IsMarked name := by
  rw [IsMarked, h]
  exact k.variableMark_isPrefixOf

/-- What the first variable says of its field, where no other says something of it. -/
theorem ofEnvironment?_cons_or {e : String × String} {k₀ : Field}
    (hk₀ : lowerText e.1.toList = k₀.variableName) (hnone : Field.ofEnvironment? env k₀ = none) :
    (Field.ofEnvironment? (e :: env) k).or (given k) =
      (Field.ofEnvironment? env k).or (if k = k₀ then some (.ofVariable e.2) else given k) := by
  rw [ofEnvironment?_cons, hk₀]
  by_cases hk : k = k₀
  · subst hk
    rw [if_pos rfl, if_pos rfl, hnone]
    rfl
  · rw [if_neg fun heq => hk (Field.variableName_injective heq).symm, if_neg hk]

theorem ofVariables_cons (e : String × String) :
    ofVariables (e :: env) = (ofVariable? e.1 e.2).toList ++ ofVariables env := by
  rw [ofVariables, List.filterMap_cons]
  cases ofVariable? e.1 e.2 <;> rfl

theorem ofVariable?_of_not_isMarked {name text : String} (h : ¬IsMarked name) :
    ofVariable? name text = none := if_neg h

/-- What a variable says whose name, in lower case, is meant for a field. -/
theorem ofVariable?_variableName {name text : String} (h : lowerText name.toList = k.variableName) :
    ofVariable? name text = some (⟨k.record, [.member k.name]⟩, .ofVariable text) := by
  rw [ofVariable?, h, if_pos k.variableMark_isPrefixOf, k.ofText_variableName]

/-- What the environment says prevails over what a root holds. -/
theorem Holds.putLayer_ofVariables (h : Holds root given) (hregular : IsRegularEnvironment env) :
    ∃ root', root.putLayer (ofVariables env) = .ok root' ∧
      Holds root' fun k => (Field.ofEnvironment? env k).or (given k) := by
  induction env generalizing root given with
  | nil => exact ⟨root, rfl, h⟩
  | cons e env ih =>
    obtain ⟨hhead, htail⟩ := List.pairwise_cons.1 hregular.distinct
    have hregular' : IsRegularEnvironment env :=
      ⟨fun e' he' => hregular.known e' (List.mem_cons_of_mem _ he'), htail⟩
    by_cases hmarked : IsMarked e.1
    · obtain ⟨k₀, hk₀⟩ := hregular.known e List.mem_cons_self hmarked
      obtain ⟨root₁, hroot₁, hholds₁⟩ := h.set_field k₀ (ofVariable_ne_table e.2)
      obtain ⟨root', hroot', hholds⟩ := ih hholds₁ hregular'
      -- A later variable for the same field would prevail, but there is none.
      have hnone : Field.ofEnvironment? env k₀ = none := by
        rw [ofEnvironment?_eq_none_iff]
        intro e' he'
        rw [← hk₀]
        exact (hhead e' he' hmarked).symm
      refine ⟨root', ?_, ?_⟩
      · rw [ofVariables_cons, ofVariable?_variableName hk₀, Value.putLayer, Option.toList_some,
          List.singleton_append, List.foldlM_cons, hroot₁]
        exact hroot'
      · simpa only [ofEnvironment?_cons_or hk₀ hnone] using hholds
    · obtain ⟨root', hroot', hholds⟩ := ih h hregular'
      refine ⟨root', ?_, ?_⟩
      · rw [ofVariables_cons, ofVariable?_of_not_isMarked hmarked]
        exact hroot'
      · have hother (k : Field) : lowerText e.1.toList ≠ k.variableName :=
          fun heq => hmarked (isMarked_of_variableName heq)
        simpa only [ofEnvironment?_cons, if_neg (hother _)] using hholds

/-- An environment in which nothing is meant for the settings. -/
theorem isRegularEnvironment_of_unmarked (h : ∀ e ∈ env, ¬IsMarked e.1) :
    IsRegularEnvironment env where
  known e he hmarked := absurd hmarked (h e he)
  distinct := List.pairwise_of_forall_mem_list fun e he _ _ hmarked => absurd hmarked (h e he)

theorem ofEnvironment?_of_unmarked (h : ∀ e ∈ env, ¬IsMarked e.1) :
    Field.ofEnvironment? env k = none :=
  ofEnvironment?_eq_none_iff.2 fun e he heq => h e he (isMarked_of_variableName heq)

/-! ### What prevails -/

/-- What prevails of what an environment and the members of a table say. -/
def Field.prevailing? (env : Environment) (members : List (String × Value)) : Given := fun k =>
  (Field.ofEnvironment? env k).or (Field.ofMembers? members k)

/-- The value prevails for the field: a variable that is meant for the field says so, or no variable
is meant for the field and the member of that name of the record of that name does. -/
def Prevails (env : Environment) (members : List (String × Value)) (k : Field) (v : Value) : Prop :=
  (∃ e ∈ env, lowerText e.1.toList = k.variableName ∧ .ofVariable e.2 = v) ∨
    (∀ e ∈ env, lowerText e.1.toList ≠ k.variableName) ∧
      ∃ r ∈ members, lower r.1 = k.record ∧ ∃ m ∈ r.2.members, lower m.1 = k.name ∧ m.2 = v

theorem ofEnvironment?_eq_some_iff (h : IsRegularEnvironment env) :
    Field.ofEnvironment? env k = some v ↔
      ∃ e ∈ env, lowerText e.1.toList = k.variableName ∧ .ofVariable e.2 = v := by
  have hdistinct : env.Pairwise fun e e' =>
      ¬(decide (lowerText e.1.toList = k.variableName) = true ∧
        decide (lowerText e'.1.toList = k.variableName) = true) :=
    h.distinct.imp fun hne hboth => by
      have he := of_decide_eq_true hboth.1
      exact hne (isMarked_of_variableName he) (he.trans (of_decide_eq_true hboth.2).symm)
  simp [Field.ofEnvironment?, find?_eq_some_iff_mem hdistinct, and_assoc]

theorem ofMembers?_eq_some_iff (h : IsRegular members) : Field.ofMembers? members k = some v ↔
    ∃ r ∈ members, lower r.1 = k.record ∧ ∃ m ∈ r.2.members, lower m.1 = k.name ∧ m.2 = v := by
  rw [Field.ofMembers?, Option.bind_eq_some_iff]
  constructor
  · rintro ⟨r, hr, hv⟩
    obtain ⟨m, hm, hrecord, rfl⟩ := (Value.named_eq_some_iff h.distinct).1 hr
    obtain ⟨inner, hinner, hnames, -⟩ := h.records m hm k hrecord
    rw [hinner] at hv
    refine ⟨m, hm, hrecord, ?_⟩
    rw [hinner]
    exact (Value.named_eq_some_iff hnames).1 hv
  · rintro ⟨m, hm, hrecord, hv⟩
    obtain ⟨inner, hinner, hnames, -⟩ := h.records m hm k hrecord
    rw [hinner] at hv
    refine ⟨m.2, (Value.named_eq_some_iff h.distinct).2 ⟨m, hm, hrecord, rfl⟩, ?_⟩
    rw [hinner]
    exact (Value.named_eq_some_iff hnames).2 hv

theorem prevailing?_eq_some_iff (henv : IsRegularEnvironment env) (h : IsRegular members) :
    Field.prevailing? env members k = some v ↔ Prevails env members k v := by
  rw [Field.prevailing?, Option.or_eq_some_iff, ofEnvironment?_eq_some_iff henv,
    ofMembers?_eq_some_iff h, ofEnvironment?_eq_none_iff, Prevails]

end Layer

namespace Settings

open Layer (Given Field Holds IsRegular IsRegularEnvironment Prevails)

variable {fs fs' : FileSystem} {env env' : Environment} {path : Path} {path? path?' : Option Path}
  {members members' : List (String × Layer.Value)} {root : Layer.Value} {s : Settings}

/-- The file at the path is a table with these members, or there is no file and these are none. -/
inductive Reads (fs : FileSystem) (path : Path) : List (String × Layer.Value) → Prop where
  | nothing (hentry : fs.hasEntry path = false) : Reads fs path []
  | table {file : Path} {n : Layer.Notation} {text : String} {members : List (String × Layer.Value)}
    (hentry : fs.hasEntry path = true) (hfile : Layer.fileFor? fs path = some (file, n))
    (htext : fs.contentOf file = .ok text) (hread : n.read? text = some (.table members)) :
    Reads fs path members

theorem ofFile?_of_reads (h : Reads fs path members) :
    Layer.ofFile? fs path = some (members.map fun m => (.ofText m.1.toList, m.2)) := by
  cases h with
  | nothing hentry => simp [Layer.ofFile?, hentry]
  | table hentry hfile htext hread =>
    simp [Layer.ofFile?, hentry, hfile, htext, Except.toOption, Layer.ofFileText?, hread,
      Layer.ofTable?]

/-- The path of the file that is read if some path is asked for. -/
def pathFor (env : Environment) (path? : Option Path) : Path :=
  path?.getD (globalPath (homeDirectory ((env.lookup "HOME").map Path.ofString)))

/-- What is loaded is what a root is taken for that holds what prevails. -/
theorem exists_load_eq (hreads : Reads fs (pathFor env path?) members)
    (hregular : IsRegular members) (henv : IsRegularEnvironment env) : ∃ root,
      Layer.Value.format.settings? root = (Field.prevailing? env members).settings? ∧
      load fs env path? = (ofValue root).mapError .failure := by
  obtain ⟨r₀, hr₀, hholds₀⟩ := Layer.holds_defaults
  obtain ⟨r₁, hr₁, hholds₁⟩ := hholds₀.putLayer_ofTable? hregular
  obtain ⟨r₂, hr₂, hholds₂⟩ := hholds₁.putLayer_ofVariables henv
  refine ⟨r₂, ?_, ?_⟩
  · rw [hholds₂.settings?, ← Layer.settings?_or_default (Field.prevailing? env members)]
    simp only [Field.prevailing?, Option.or_assoc]
  · have hload : load fs env path? = loadFrom fs env (pathFor env path?) := rfl
    rw [hload, loadFrom, ofFile?_of_reads hreads]
    dsimp only
    rw [ofLayers, Layer.combine_three, hr₀]
    dsimp only [Except.bind]
    rw [hr₁]
    dsimp only
    rw [hr₂]

theorem ofValue_eq_ok_iff : (ofValue root).mapError LoadFault.failure = .ok s ↔
    Layer.Value.format.settings? root = some s ∧ s.validate = .ok () := by
  rw [ofValue]
  split
  · next heq => simp [heq, Except.mapError]
  · next s' heq =>
    rw [heq, Option.some.injEq]
    cases hvalid : s'.validate with
    | error e =>
      constructor
      · nofun
      · rintro ⟨rfl, hok⟩
        rw [hvalid] at hok
        cases hok
    | ok u =>
      constructor
      · intro heq
        cases heq
        exact ⟨rfl, hvalid⟩
      · rintro ⟨rfl, -⟩
        rfl

theorem ofValue_congr {root' : Layer.Value}
    (h : Layer.Value.format.settings? root = Layer.Value.format.settings? root') :
    ofValue root = ofValue root' := by
  rw [ofValue, ofValue, h]

/-- **What is loaded is what prevails.** -/
theorem load_eq_ok_iff (hreads : Reads fs (pathFor env path?) members)
    (hregular : IsRegular members) (henv : IsRegularEnvironment env) :
    (∀ s, load fs env path? = .ok s ↔
      (Field.prevailing? env members).settings? = some s ∧ s.validate = .ok ()) ∧
    ∀ fs' env' path?' members', Reads fs' (pathFor env' path?') members' → IsRegular members' →
      IsRegularEnvironment env' →
      (∀ k v, Prevails env members k v ↔ Prevails env' members' k v) →
      load fs env path? = load fs' env' path?' := by
  obtain ⟨root, hroot, hload⟩ := exists_load_eq hreads hregular henv
  refine ⟨fun s => ?_, fun fs' env' path?' members' hreads' hregular' henv' hprevails => ?_⟩
  · rw [hload, ofValue_eq_ok_iff, hroot]
  · obtain ⟨root', hroot', hload'⟩ := exists_load_eq hreads' hregular' henv'
    have hgiven : Field.prevailing? env members = Field.prevailing? env' members' := by
      funext k
      refine Option.ext fun v => ?_
      rw [Layer.prevailing?_eq_some_iff henv hregular, hprevails,
        Layer.prevailing?_eq_some_iff henv' hregular']
    rw [hload, hload', ofValue_congr (hroot.trans (hgiven ▸ hroot'.symm))]

/-! ### A value that is replaced

In a file the window is a list, which is no number, but a variable says what it is. -/

/-- The file. -/
def listedText : String := "[watcher]\ndebounce_ms = []\nfollow_symlinks = \"yes\"\n"

/-- What the file says. -/
def listedMembers : List (String × Layer.Value) :=
  [("watcher", .table [("debounce_ms", .list []), ("follow_symlinks", .text "yes")])]

/-- The file system with the file. -/
def listedFiles : FileSystem := { entries := [([Utf8.encode "w.toml".toList], .file listedText)] }

theorem parse_listedText : Toml.parse listedText =
    .ok (.table [("watcher",
      .table [("debounce_ms", .array []), ("follow_symlinks", .text "yes")])]) := by
  have htext : listedText = String.ofList ('[' :: ("watcher".toList ++ ']' :: '\n' ::
      (tomlLine "debounce_ms" (tomlTexts []) ++
        (tomlLine "follow_symlinks" (Toml.Quoted.write "yes".toList) ++ [])))) := by
    decide
  have hlists := Toml.Lists.header "watcher" (by decide) <|
    .line "debounce_ms" (by decide) (Toml.spells_tomlTexts []) <|
    .line "follow_symlinks" (by decide) (Toml.spells_write "yes") .nil
  rw [htext]
  exact Toml.parse_of_lists (by decide) hlists rfl

theorem reads_listed : Reads listedFiles (.ofString "/w.toml") listedMembers := by
  have hfile : Layer.fileFor? listedFiles (.ofString "/w.toml") =
      some (.ofString "/w.toml", .toml) := by decide
  have htext : listedFiles.contentOf (.ofString "/w.toml") = .ok listedText := by decide
  refine .table (by decide) hfile htext ?_
  rw [Layer.Notation.read?, parse_listedText]
  rfl

theorem isRegular_listed : IsRegular listedMembers := by
  have hnames : ["debounce_ms", "follow_symlinks"].Nodup := by decide
  refine ⟨List.pairwise_singleton _ _, by simp [listedMembers], ?_⟩
  rw [listedMembers, List.forall_mem_singleton]
  exact fun k _ => ⟨_, rfl, hnames, by simp⟩

/-- The settings that are loaded have the window from the variable and follow links as the file
says. -/
theorem load_eq_ok_listed :
    load listedFiles [("WSYNC_Watcher__Debounce_MS", "250")] (some (.ofString "/w.toml")) =
      .ok { watcher := { debounceMs := 250, followSymlinks := true } } := by
  have henv : IsRegularEnvironment [("WSYNC_Watcher__Debounce_MS", "250")] := by
    refine ⟨?_, List.pairwise_singleton _ _⟩
    rw [List.forall_mem_singleton]
    exact fun _ => ⟨.debounceMs, by decide⟩
  exact ((load_eq_ok_iff reads_listed isRegular_listed henv).1 _).2 ⟨by decide, by decide⟩

end Settings

end WorkspaceWatch
