import WorkspaceWatch.Proofs.Layer.Placement
import WorkspaceWatch.Proofs.Results
import WorkspaceWatch.Settings.Store

/-!
# Roots that hold settings

While layers are put together, the root is a table with a table for each record of the settings,
and what it holds can be said field by field (`Holds`). The defaults make such a root. A value that
is put at the key of a field changes that field only (`Holds.set_field`), and a record that is put
into the root changes the fields that the record has (`Holds.put_member`). What a root holds in the
end is all that counts for the settings (`Holds.settings?`).
-/

namespace WorkspaceWatch

namespace Layer

open Value (named HasDistinctNames)

/-! ### Fields -/

/-- A field of the settings. -/
inductive Field where
  | debounceMs
  | ignorePatterns
  | followSymlinks
  | resyncOnNotifyFailure
  | concurrentAcquisition
  deriving DecidableEq, Repr

namespace Field

/-- The name of the record that has the field. -/
def record : Field → String
  | concurrentAcquisition => "aggregator"
  | _ => "watcher"

/-- The name of the field. -/
def name : Field → String
  | debounceMs => "debounce_ms"
  | ignorePatterns => "ignore_patterns"
  | followSymlinks => "follow_symlinks"
  | resyncOnNotifyFailure => "resync_on_notify_failure"
  | concurrentAcquisition => "concurrent_acquisition"

/-- The name, in lower case, of the variable that is meant for the field. -/
def variableName (k : Field) : List Char :=
  variableMark ++ k.record.toList ++ ['_', '_'] ++ k.name.toList

theorem lower_record (k : Field) : lower k.record = k.record := by cases k <;> decide

theorem lower_name (k : Field) : lower k.name = k.name := by cases k <;> decide

theorem eq_of_name_eq {k k' : Field} (h : k.name = k'.name) : k = k' := by
  cases k <;> cases k' <;> first | rfl | exact absurd h (by decide)

theorem variableName_injective {k k' : Field} (h : k.variableName = k'.variableName) : k = k' := by
  cases k <;> cases k' <;> first | rfl | exact absurd h (by decide)

theorem ofText_variableName (k : Field) :
    Key.ofText (withPoints (k.variableName.drop variableMark.length)) =
      ⟨k.record, [.member k.name]⟩ := by
  cases k <;> decide

theorem variableMark_isPrefixOf (k : Field) : variableMark.isPrefixOf k.variableName = true := by
  cases k <;> decide

end Field

/-- What is given for fields. -/
abbrev Given := Field → Option Value

/-- The settings of which some are given. -/
def Given.settings? (given : Given) : Option Settings := do
  let standard : Settings := {}
  let debounceMs ← orDefault Value.number? standard.watcher.debounceMs (given .debounceMs)
  let ignorePatterns ←
    orDefault Value.format.texts? standard.watcher.ignorePatterns (given .ignorePatterns)
  let followSymlinks ← orDefault Value.flag? standard.watcher.followSymlinks (given .followSymlinks)
  let resyncOnNotifyFailure ←
    orDefault Value.flag? standard.watcher.resyncOnNotifyFailure (given .resyncOnNotifyFailure)
  let concurrentAcquisition ←
    orDefault Value.flag? standard.aggregator.concurrentAcquisition (given .concurrentAcquisition)
  return {
    watcher := { debounceMs, ignorePatterns, followSymlinks, resyncOnNotifyFailure }
    aggregator := { concurrentAcquisition } }

/-- If a value is given for every field and can be taken for it, these are the settings. -/
theorem settings?_eq_some {given : Given} {s : Settings} {v₁ v₂ v₃ v₄ v₅ : Value}
    (h₁ : given .debounceMs = some v₁) (hs₁ : v₁.number? = some s.watcher.debounceMs)
    (h₂ : given .ignorePatterns = some v₂)
    (hs₂ : Value.format.texts? v₂ = some s.watcher.ignorePatterns)
    (h₃ : given .followSymlinks = some v₃) (hs₃ : v₃.flag? = some s.watcher.followSymlinks)
    (h₄ : given .resyncOnNotifyFailure = some v₄)
    (hs₄ : v₄.flag? = some s.watcher.resyncOnNotifyFailure)
    (h₅ : given .concurrentAcquisition = some v₅)
    (hs₅ : v₅.flag? = some s.aggregator.concurrentAcquisition) : given.settings? = some s := by
  simp only [Given.settings?, h₁, h₂, h₃, h₄, h₅, orDefault, hs₁, hs₂, hs₃, hs₄, hs₅,
    Option.bind_eq_bind, Option.bind_some, Option.pure_def]

/-- The value that a root holds for a field. -/
def Value.cell (root : Value) (k : Field) : Option Value :=
  (root.members.lookup k.record).bind fun r => r.members.lookup k.name

/-- The root is a table of records, and holds exactly what is given. -/
structure Holds (root : Value) (given : Given) : Prop where
  isTable : ∃ ms, root = .table ms
  records : ∀ k : Field, ∃ inner, root.members.lookup k.record = some (.table inner)
  cells : ∀ k : Field, root.cell k = given k

/-- What a root holds is taken for the settings. -/
theorem Holds.settings? {root : Value} {given : Given} (h : Holds root given) :
    Value.format.settings? root = given.settings? := by
  obtain ⟨ms, rfl⟩ := h.isTable
  obtain ⟨ws, hws⟩ := h.records .debounceMs
  obtain ⟨as, has⟩ := h.records .concurrentAcquisition
  have hwatcher (k : Field) (hk : k.record = Field.debounceMs.record) :
      ws.lookup k.name = given k := by
    rw [← h.cells, Value.cell, hk, hws]
    rfl
  have haggregator : as.lookup "concurrent_acquisition" = given .concurrentAcquisition := by
    rw [← h.cells, Value.cell, has]
    rfl
  have hdebounce := hwatcher .debounceMs rfl
  have hpatterns := hwatcher .ignorePatterns rfl
  have hfollow := hwatcher .followSymlinks rfl
  have hresync := hwatcher .resyncOnNotifyFailure rfl
  simp only [Field.record, Field.name, Value.members] at hws has hdebounce hpatterns hfollow hresync
  simp only [Format.settings?, Format.watcher?, Format.aggregator?, Value.format, Given.settings?,
    orDefault, hws, has, hdebounce, hpatterns, hfollow, hresync, haggregator, Option.bind_eq_bind,
    Option.bind_some, Option.pure_def, Option.bind_assoc]

/-! ### The defaults -/

/-- What the defaults say of a field. -/
def Field.default? : Given
  | .debounceMs => some (.integer ({} : WatcherSettings).debounceMs.toNat)
  | .ignorePatterns => none
  | .followSymlinks => some (.boolean ({} : WatcherSettings).followSymlinks)
  | .resyncOnNotifyFailure => some (.boolean ({} : WatcherSettings).resyncOnNotifyFailure)
  | .concurrentAcquisition => some (.boolean ({} : AggregatorSettings).concurrentAcquisition)

/-- Puts the values of a layer where its keys say. -/
def Value.putLayer (root : Value) (layer : Layer) : Except Misplacement Value :=
  layer.foldlM (fun root entry => root.set entry.1 entry.2) root

theorem combine_three (a b c : Layer) : combine [a, b, c] =
    (Value.putLayer (.table []) a).bind fun root => (root.putLayer b).bind fun root =>
      root.putLayer c := by
  simp only [combine, List.flatten_cons, List.flatten_nil, List.append_nil, List.foldlM_append]
  rfl

theorem holds_defaults :
    ∃ root, Value.putLayer (.table []) defaults = .ok root ∧ Holds root Field.default? := by
  refine ⟨_, rfl, ⟨_, rfl⟩, fun k => ?_, fun k => ?_⟩
  · cases k <;> exact ⟨_, rfl⟩
  · cases k <;> rfl

theorem orDefault_or {α β : Type} {read? : α → Option β} {default : β} {v : α}
    (hv : read? v = some default) (given? : Option α) :
    orDefault read? default (given?.or (some v)) = orDefault read? default given? := by
  cases given? with
  | none => exact hv
  | some _ => rfl

/-- Whoever takes defaults for what is not given may be given the defaults. -/
theorem settings?_or_default (given : Given) :
    Given.settings? (fun k => (given k).or k.default?) = given.settings? := by
  have hnumber : Value.number? (.integer ({} : WatcherSettings).debounceMs.toNat) =
      some ({} : WatcherSettings).debounceMs := by
    decide
  have hflag (b : Bool) : Value.flag? (.boolean b) = some b := rfl
  simp only [Given.settings?, Field.default?, Option.or_none, orDefault_or hnumber,
    orDefault_or (hflag _)]

/-! ### One value more -/

variable {root : Value} {given : Given}

/-- A value that is no table, put at the key of a field, replaces what is held for the field. -/
theorem Holds.set_field (h : Holds root given) (k : Field) {v : Value}
    (hv : ∀ ms, v ≠ .table ms) :
    ∃ root', root.set ⟨k.record, [.member k.name]⟩ v = .ok root' ∧
      Holds root' fun k' => if k' = k then some v else given k' := by
  obtain ⟨ns, hns⟩ := h.records k
  have hset : root.set ⟨k.record, [.member k.name]⟩ v = .ok
      (.table (Value.alter k.record (fun _ => Value.put k.name v (.table ns)) root.members)) := by
    rw [Value.set, Value.setAt, hns]
    · rfl
    · simp
  refine ⟨_, hset, ⟨_, rfl⟩, fun k' => ?_, fun k' => ?_⟩
  · rw [Value.members, Value.lookup_alter]
    split
    · obtain ⟨ns', hns'⟩ := Value.exists_put k.name v (.table ns)
      exact ⟨ns', congrArg some hns'⟩
    · exact h.records k'
  · have hcell := h.cells k'
    rw [Value.cell] at hcell ⊢
    rw [Value.members, Value.lookup_alter]
    split
    · next hrecord =>
      rw [hrecord, hns, Option.bind_some] at hcell
      rw [Option.bind_some]
      split
      · next heq =>
        subst heq
        have hput : (Value.put k'.name v (.table ns)).members.lookup (lower k'.name) = some v :=
          Value.lookup_put_of_ne_table hv
        rwa [Field.lower_name] at hput
      · next hne =>
        have hname : k'.name ≠ lower k.name := by
          rw [Field.lower_name]
          exact fun heq => hne (Field.eq_of_name_eq heq)
        rw [Value.lookup_put_of_ne hname, hcell]
    · next hrecord =>
      have hne : k' ≠ k := fun heq => hrecord (congrArg Field.record heq)
      rw [hcell, if_neg hne]

/-- A member of a table, put at its name: a record brings its fields along. -/
theorem Holds.put_member (h : Holds root given) {m : String × Value}
    (hrecords : ∀ k : Field, lower m.1 = k.record → ∃ inner, m.2 = .table inner ∧
      HasDistinctNames inner ∧ ∀ e ∈ inner, lower e.1 = k.name → ∀ t, e.2 ≠ .table t) :
    Holds (Value.put (lower m.1) m.2 root) fun k =>
      if lower m.1 = k.record then (named k.name m.2.members).or (given k) else given k := by
  -- What becomes of a record that the member stands for, and of one that it does not stand for.
  have hsame (k : Field) (hk : lower m.1 = k.record) : ∃ ns ns',
      root.members.lookup k.record = some (.table ns) ∧
      (Value.put (lower m.1) m.2 root).members.lookup k.record = some (.table ns') ∧
      ns'.lookup k.name = (named k.name m.2.members).or (ns.lookup k.name) := by
    obtain ⟨inner, hinner, hnames, hplain⟩ := hrecords k hk
    obtain ⟨ns, hns⟩ := h.records k
    obtain ⟨ns', hns'⟩ := Value.exists_putAll inner ns
    have hall : (Value.putAll inner (.table ns)).members.lookup k.name =
        (named k.name inner).or (ns.lookup k.name) := Value.lookup_putAll hnames hplain
    rw [hns'] at hall
    have hrecord : (Value.put (lower m.1) (.table inner) root).members.lookup (lower (lower m.1)) =
        some (Value.putAll inner ((root.members.lookup (lower (lower m.1))).getD (.table []))) :=
      Value.lookup_put_table
    rw [lower_lower, hk, hns, Option.getD_some, hns'] at hrecord
    rw [hinner, hk]
    exact ⟨ns, ns', hns, hrecord, hall⟩
  have hother (k : Field) (hk : lower m.1 ≠ k.record) :
      (Value.put (lower m.1) m.2 root).members.lookup k.record = root.members.lookup k.record := by
    refine Value.lookup_put_of_ne ?_
    rw [lower_lower]
    exact Ne.symm hk
  refine ⟨Value.exists_put _ _ _, fun k => ?_, fun k => ?_⟩
  · by_cases hk : lower m.1 = k.record
    · obtain ⟨-, ns', -, hns', -⟩ := hsame k hk
      exact ⟨ns', hns'⟩
    · rw [hother k hk]
      exact h.records k
  · have hcell := h.cells k
    rw [Value.cell] at hcell ⊢
    split
    · next hk =>
      obtain ⟨ns, ns', hns, hns', hlookup⟩ := hsame k hk
      rw [hns, Option.bind_some] at hcell
      rw [hns', Option.bind_some, ← hcell]
      exact hlookup
    · next hk => rw [hother k hk, hcell]

end Layer

end WorkspaceWatch
