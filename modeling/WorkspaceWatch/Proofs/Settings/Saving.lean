import WorkspaceWatch.Proofs.FileSystem.Writing
import WorkspaceWatch.Proofs.Settings.Loading
import WorkspaceWatch.Proofs.Toml.Reader

/-!
# Saved settings are read back

The text of settings lists the entries of a document with two tables (`parse_of_tomlText?`), so both
readers find there what was written: the strict one, which takes a document for settings as it is,
and the lenient one of `Settings.load`, for which the document is a layer between the defaults and
the environment.

Whether a file is read as TOML is decided by its name, which needs something before its point. A
file that is called `.toml` can be saved to but not loaded from (`not_forall_saved_loaded`).
-/

namespace WorkspaceWatch

/-! ### The document -/

/-- The table that the settings of a watcher are written as. -/
def WatcherSettings.document (w : WatcherSettings) : Toml := .table [
  ("debounce_ms", .integer w.debounceMs.toNat),
  ("ignore_patterns", .array (w.ignorePatterns.map .text)),
  ("follow_symlinks", .boolean w.followSymlinks),
  ("resync_on_notify_failure", .boolean w.resyncOnNotifyFailure)]

/-- The table that the settings of an aggregator are written as. -/
def AggregatorSettings.document (a : AggregatorSettings) : Toml :=
  .table [("concurrent_acquisition", .boolean a.concurrentAcquisition)]

namespace Settings

open Layer (Given Field IsRegular IsRegularEnvironment IsMarked)

variable {s : Settings} {text : String} {fs fs' : FileSystem} {path : Path}

/-- The document that settings are written as. -/
def document (s : Settings) : Toml :=
  .table [("watcher", s.watcher.document), ("aggregator", s.aggregator.document)]

/-- What is written is the document. -/
theorem parse_of_tomlText? (h : s.tomlText? = some text) : Toml.parse text = .ok s.document := by
  rw [tomlText?] at h
  split at h
  case isFalse => cases h
  next hrange =>
  cases h
  have hlists := Toml.Lists.header "watcher" (by decide) <|
    .line "debounce_ms" (by decide) (Toml.spells_toDigits hrange) <|
    .line "ignore_patterns" (by decide) (Toml.spells_tomlTexts s.watcher.ignorePatterns) <|
    .line "follow_symlinks" (by decide) (Toml.spells_tomlFlag s.watcher.followSymlinks) <|
    .line "resync_on_notify_failure" (by decide)
      (Toml.spells_tomlFlag s.watcher.resyncOnNotifyFailure) <|
    .feed <| .header "aggregator" (by decide) <|
    .line "concurrent_acquisition" (by decide)
      (Toml.spells_tomlFlag s.aggregator.concurrentAcquisition) .nil
  have hparse := Toml.parse_of_lists (by simp) hlists rfl
  refine Eq.trans (congrArg (Toml.parse ∘ String.ofList) ?_) hparse
  simp

/-! ### The strict reader -/

/-- The document gives the settings. -/
theorem settings?_document (s : Settings) : Toml.format.settings? s.document = some s := by
  have hrecord (names : List String) (ms : List (String × Toml)) :
      Toml.format.record? names (.table ms) = some fun name => ms.lookup name := rfl
  have hflag (b : Bool) : Toml.format.flag? (.boolean b) = some b := rfl
  have hnumber : Toml.format.number? (.integer s.watcher.debounceMs.toNat) =
      some s.watcher.debounceMs := by
    simp [Toml.format]
  have htexts : Toml.format.texts? (.array (s.watcher.ignorePatterns.map .text)) =
      some s.watcher.ignorePatterns :=
    mapM_map_eq_some (g := Toml.text) (fun _ => rfl) _
  have hwatcher : Toml.format.watcher? s.watcher.document = some s.watcher := by
    simp only [Format.watcher?, WatcherSettings.document, hrecord, Option.bind_eq_bind,
      Option.bind_some]
    simp only [List.lookup_cons, String.reduceBEq, orDefault, hflag, hnumber, htexts,
      Option.bind_some, Option.pure_def]
  have haggregator : Toml.format.aggregator? s.aggregator.document = some s.aggregator := by
    simp only [Format.aggregator?, AggregatorSettings.document, hrecord, Option.bind_eq_bind,
      Option.bind_some, List.lookup_cons_self, orDefault, hflag, Option.pure_def]
  simp only [Format.settings?, document, hrecord, Option.bind_eq_bind, Option.bind_some,
    List.lookup_cons, String.reduceBEq, orDefault, hwatcher, haggregator, Option.pure_def]

/-- The strict reader takes what is written. -/
theorem ofTomlText_of_tomlText? (h : s.tomlText? = some text) : ofTomlText text = .ok s := by
  rw [ofTomlText, parse_of_tomlText? h]
  dsimp only
  rw [settings?_document]

/-! ### The lenient reader -/

/-- The watcher's settings as members of a table. -/
def watcherMembers (s : Settings) : List (String × Layer.Value) := [
  ("debounce_ms", .integer s.watcher.debounceMs.toNat),
  ("ignore_patterns", .list (s.watcher.ignorePatterns.map .text)),
  ("follow_symlinks", .boolean s.watcher.followSymlinks),
  ("resync_on_notify_failure", .boolean s.watcher.resyncOnNotifyFailure)]

/-- The aggregator's settings as members of a table. -/
def aggregatorMembers (s : Settings) : List (String × Layer.Value) := [
  ("concurrent_acquisition", .boolean s.aggregator.concurrentAcquisition)]

/-- The members of the table that the document is. -/
def members (s : Settings) : List (String × Layer.Value) := [
  ("watcher", .table s.watcherMembers), ("aggregator", .table s.aggregatorMembers)]

theorem ofTomls?_text (ss : List String) :
    Layer.Value.ofTomls? (ss.map .text) = some (ss.map .text) := by
  induction ss with
  | nil => rfl
  | cons s ss ih =>
    rw [List.map_cons, Layer.Value.ofTomls?, ih]
    rfl

theorem ofToml?_document (s : Settings) :
    Layer.Value.ofToml? s.document = some (.table s.members) := by
  have hwatcher : "watcher" ≠ Layer.Value.datetimeMark := by decide
  have hdebounce : "debounce_ms" ≠ Layer.Value.datetimeMark := by decide
  have hconcurrent : "concurrent_acquisition" ≠ Layer.Value.datetimeMark := by decide
  simp [document, WatcherSettings.document, AggregatorSettings.document, Layer.Value.ofToml?,
    Layer.Value.marked?, Layer.Value.ofTomlMembers?, ofTomls?_text, members, watcherMembers,
    aggregatorMembers, hwatcher, hdebounce, hconcurrent]

theorem lower_members (s : Settings) : ∀ m ∈ s.members, lower m.1 = m.1 := by
  rw [members, List.forall_mem_cons, List.forall_mem_cons]
  exact ⟨Field.lower_record .debounceMs, Field.lower_record .concurrentAcquisition, nofun⟩

theorem lower_watcherMembers (s : Settings) : ∀ m ∈ s.watcherMembers, lower m.1 = m.1 := by
  simp only [watcherMembers, List.forall_mem_cons]
  exact ⟨Field.lower_name .debounceMs, Field.lower_name .ignorePatterns,
    Field.lower_name .followSymlinks, Field.lower_name .resyncOnNotifyFailure, nofun⟩

theorem lower_aggregatorMembers (s : Settings) : ∀ m ∈ s.aggregatorMembers, lower m.1 = m.1 := by
  rw [aggregatorMembers, List.forall_mem_cons]
  exact ⟨Field.lower_name .concurrentAcquisition, nofun⟩

theorem isRegular_members (s : Settings) : IsRegular s.members where
  distinct := Layer.Value.hasDistinctNames_of_nodup s.lower_members
    (show ["watcher", "aggregator"].Nodup by decide)
  plain := by simp [members]
  records := by
    rw [members, List.forall_mem_cons, List.forall_mem_cons]
    have hwatcher := Layer.Value.hasDistinctNames_of_nodup s.lower_watcherMembers
      (show ["debounce_ms", "ignore_patterns", "follow_symlinks",
        "resync_on_notify_failure"].Nodup by decide)
    have haggregator := Layer.Value.hasDistinctNames_of_nodup s.lower_aggregatorMembers
      (show ["concurrent_acquisition"].Nodup by decide)
    refine ⟨fun k _ => ⟨_, rfl, hwatcher, ?_⟩, fun k _ => ⟨_, rfl, haggregator, ?_⟩, nofun⟩
    · simp [watcherMembers]
    · simp [aggregatorMembers]

theorem number?_toNat (n : UInt64) : Layer.Value.number? (.integer n.toNat) = some n := by
  have hlt : (n.toNat : Int) < (UInt64.size : Nat) := Int.ofNat_lt.2 n.toNat_lt_size
  rw [Layer.Value.number?, if_pos ⟨Int.natCast_nonneg _, hlt⟩]
  simp

theorem ofMembers?_members {k : Field} {record : List (String × Layer.Value)}
    (hrecord : s.members.lookup k.record = some (.table record))
    (hlower : ∀ m ∈ record, lower m.1 = m.1) :
    Field.ofMembers? s.members k = record.lookup k.name := by
  rw [Field.ofMembers?, Layer.Value.named_eq_lookup s.lower_members, hrecord, Option.bind_some]
  exact Layer.Value.named_eq_lookup hlower

theorem ofMembers?_watcher {k : Field} (hk : k.record = "watcher") :
    Field.ofMembers? s.members k = s.watcherMembers.lookup k.name :=
  ofMembers?_members (by rw [hk, members, List.lookup_cons_self]) s.lower_watcherMembers

theorem ofMembers?_aggregator {k : Field} (hk : k.record = "aggregator") :
    Field.ofMembers? s.members k = s.aggregatorMembers.lookup k.name :=
  ofMembers?_members (by rw [hk]; simp [members, List.lookup_cons]) s.lower_aggregatorMembers

/-- What the members say of the fields gives the settings. -/
theorem settings?_members (s : Settings) : (Field.ofMembers? s.members).settings? = some s := by
  have hflag (b : Bool) : Layer.Value.flag? (.boolean b) = some b := rfl
  have htexts : Layer.Value.format.texts? (.list (s.watcher.ignorePatterns.map .text)) =
      some s.watcher.ignorePatterns :=
    mapM_map_eq_some (g := Layer.Value.text) (fun _ => rfl) _
  have hwatcher (k : Field) (hk : k.record = "watcher") {v : Layer.Value}
      (hv : s.watcherMembers.lookup k.name = some v) : Field.ofMembers? s.members k = some v :=
    (ofMembers?_watcher hk).trans hv
  refine Layer.settings?_eq_some
    (hwatcher .debounceMs rfl ?_) (number?_toNat _)
    (hwatcher .ignorePatterns rfl ?_) htexts
    (hwatcher .followSymlinks rfl ?_) (hflag _)
    (hwatcher .resyncOnNotifyFailure rfl ?_) (hflag _)
    ((ofMembers?_aggregator rfl).trans ?_) (hflag _)
  · simp [watcherMembers, Field.name]
  · simp [watcherMembers, Field.name, List.lookup_cons]
  · simp [watcherMembers, Field.name, List.lookup_cons]
  · simp [watcherMembers, Field.name, List.lookup_cons]
  · simp [aggregatorMembers, Field.name]

/-! ### The file -/

/-- Files can be written to the path. -/
def IsWritable (fs : FileSystem) (path : Path) : Prop :=
  ∃ fs₁, makeParent fs path = .ok fs₁ ∧ ∀ text, ∃ fs₂, fs₁.writeContent path text = .ok fs₂

/-- A name with something before the point is that of a TOML file. -/
theorem ofName?_toml {stem : List UInt8} (hstem : stem ≠ []) :
    Layer.Notation.ofName? (stem ++ dot :: Layer.Notation.toml.extension) = some .toml := by
  have hextension : Layer.Notation.extensionOf? (stem ++ dot :: Layer.Notation.toml.extension) =
      some Layer.Notation.toml.extension := by
    have hback : (stem ++ dot :: Layer.Notation.toml.extension).reverse =
        [108, 109, 111, 116] ++ dot :: stem.reverse := by
      simp [Layer.Notation.extension]
    have htake : ([108, 109, 111, 116] ++ dot :: stem.reverse).takeWhile (· ≠ dot) =
        [108, 109, 111, 116] := rfl
    have hlength : 0 < stem.length := List.length_pos_of_ne_nil hstem
    rw [Layer.Notation.extensionOf?, hback, htake, if_pos]
    · rfl
    · simp [Layer.Notation.extension]
      omega
  simp [Layer.Notation.ofName?, Layer.Notation.all, hextension]

/-- What is saved is there afterwards. -/
theorem exists_save (hlinks : fs.HasProperLinks) (hwritable : IsWritable fs path)
    (htext : s.toTomlText = .ok text) :
    ∃ fs', save fs path s = .ok fs' ∧ fs'.status path = .ok (.file text) := by
  obtain ⟨fs₁, hparent, hwrite⟩ := hwritable
  obtain ⟨fs₂, hfs₂⟩ := hwrite text
  have hlinks₁ : fs₁.HasProperLinks := by
    rw [makeParent] at hparent
    split at hparent
    · cases hparent
      exact hlinks
    · next parent _ =>
      cases hmade : fs.makeDirectories parent with
      | error e =>
        rw [hmade] at hparent
        cases hparent
      | ok fs₁' =>
        rw [hmade] at hparent
        cases hparent
        exact hlinks.makeDirectories hmade
  refine ⟨fs₂, ?_, FileSystem.status_of_writeContent hlinks₁ hfs₂⟩
  rw [save, htext]
  dsimp only [bind, Except.bind]
  rw [hparent]
  dsimp only
  rw [hfs₂]
  rfl

/-- A file that holds saved settings says what the settings are. -/
theorem reads_of_status {stem : List UInt8} (hstatus : fs.status path = .ok (.file text))
    (htext : s.tomlText? = some text) (hstem : stem ≠ [])
    (hname : path.name? = some (stem ++ dot :: Layer.Notation.toml.extension)) :
    Reads fs path s.members := by
  have hcontent : fs.contentOf path = .ok text := by rw [FileSystem.contentOf, hstatus]
  have hfile : Layer.fileFor? fs path = some (path, .toml) := by
    simp [Layer.fileFor?, hname, FileSystem.isFileAt, hcontent, Except.isOk, Except.toBool,
      ofName?_toml hstem]
  have hread : Layer.Notation.toml.read? text = some (.table s.members) := by
    rw [Layer.Notation.read?, parse_of_tomlText? htext]
    exact ofToml?_document s
  exact .table (by rw [FileSystem.hasEntry, hstatus]; rfl) hfile hcontent hread

/-- **Saved settings are read back.** -/
theorem saved_settings_read_back (s : Settings) (hrange : s.watcher.debounceMs.toNat < twoTo 63) :
    ∃ text, s.toTomlText = .ok text ∧ ofTomlText text = .ok s ∧
      ∀ fs path, fs.HasProperLinks → IsWritable fs path →
        ∃ fs', save fs path s = .ok fs' ∧ fs'.contentOf path = .ok text ∧
          ∀ env stem, s.validate = .ok () → (∀ e ∈ env, ¬IsMarked e.1) → stem ≠ [] →
            path.name? = some (stem ++ dot :: Layer.Notation.toml.extension) →
            load fs' env (some path) = .ok s := by
  obtain ⟨text, htext⟩ : ∃ text, s.tomlText? = some text := by
    rw [tomlText?, if_pos hrange]
    exact ⟨_, rfl⟩
  have hwritten : s.toTomlText = .ok text := by rw [toTomlText, htext]
  refine ⟨text, hwritten, ofTomlText_of_tomlText? htext, fun fs path hlinks hwritable => ?_⟩
  obtain ⟨fs', hsave, hstatus⟩ := exists_save hlinks hwritable hwritten
  refine ⟨fs', hsave, by rw [FileSystem.contentOf, hstatus], ?_⟩
  intro env stem hvalid hunmarked hstem hname
  have henv := Layer.isRegularEnvironment_of_unmarked hunmarked
  have hreads : Reads fs' (pathFor env (some path)) s.members :=
    reads_of_status hstatus htext hstem hname
  obtain ⟨root, hroot, hload⟩ := exists_load_eq hreads s.isRegular_members henv
  have hprevailing : Field.prevailing? env s.members = Field.ofMembers? s.members := by
    funext k
    rw [Field.prevailing?, Layer.ofEnvironment?_of_unmarked hunmarked, Option.none_or]
  rw [hload, ofValue_eq_ok_iff, hroot, hprevailing]
  exact ⟨settings?_members s, hvalid⟩

theorem hasProperLinks_empty : FileSystem.empty.HasProperLinks := by
  intro p target h
  cases p <;> cases h

/-- Settings with a pattern that no plain notation can write, saved to a new file and loaded from
it. -/
theorem saved_settings_read_back_quoted :
    let s : Settings := { watcher := { ignorePatterns := ["it's \"\n\"", ""] } }
    ∃ fs', save .empty (.ofString "/a.toml") s = .ok fs' ∧
      load fs' [] (some (.ofString "/a.toml")) = .ok s := by
  intro s
  obtain ⟨text, -, -, hsaved⟩ := saved_settings_read_back s (by decide)
  obtain ⟨fs', hsave, -, hload⟩ := hsaved .empty (.ofString "/a.toml") hasProperLinks_empty
    ⟨_, rfl, fun _ => ⟨_, rfl⟩⟩
  exact ⟨fs', hsave, hload [] [97] (by decide +kernel) nofun (by decide) (by decide)⟩

/-- A name with nothing before its point is no name of a TOML file: settings that are saved to it
are not loaded from it. -/
theorem not_forall_saved_loaded :
    ¬∀ (s : Settings) (fs : FileSystem) (path : Path), s.watcher.debounceMs.toNat < twoTo 63 →
      s.validate = .ok () → fs.HasProperLinks → IsWritable fs path →
      dot :: Layer.Notation.toml.extension <:+ path.bytes →
      ∃ fs', save fs path s = .ok fs' ∧ load fs' [] (some path) = .ok s := by
  intro hall
  have hwritable : IsWritable .empty (.ofString "/.toml") := ⟨_, rfl, fun _ => ⟨_, rfl⟩⟩
  obtain ⟨fs', hsave, hload⟩ := hall {} .empty (.ofString "/.toml") (by decide) (by decide)
    hasProperLinks_empty hwritable (by decide)
  obtain ⟨fs'', hsave', hstatus⟩ := exists_save (s := {}) hasProperLinks_empty hwritable rfl
  obtain rfl : fs' = fs'' := Except.ok.inj (hsave.symm.trans hsave')
  have hname : (Path.ofString "/.toml").name? = some (dot :: Layer.Notation.toml.extension) := by
    decide
  have hother : Layer.Notation.ofName? (dot :: Layer.Notation.toml.extension) = none := by decide
  have hnone : Layer.ofFile? fs' (.ofString "/.toml") = none := by
    simp [Layer.ofFile?, FileSystem.hasEntry, Layer.fileFor?, FileSystem.isFileAt,
      FileSystem.contentOf, hstatus, hname, hother, Except.isOk, Except.toBool]
  rw [load, loadFrom, Option.getD_some, hnone] at hload
  cases hload

end Settings

end WorkspaceWatch
