import WorkspaceWatch.Command.Run
import WorkspaceWatch.Proofs.Loop.Reporting

/-!
# What is written on the standard output

In JSON each batch that can be reported is written as one line. No control character stands for
itself in the line, whatever the paths of the batch hold, so the line feed after it is the only one
(`Batch.isPlain_render`). Hence whoever cuts the standard output at line feeds gets the lines, and
reads from them the batches whose paths are all text, in order. The other batches are rejected, and
nothing of them is written (`ReportFormat.frames_reportAll`).

A watch writes nothing else: its output is that of batches that are reported one after the other
(`Invocation.output_run`).
-/

namespace WorkspaceWatch

/-! ### Lines -/

/-- No character of the text is a control character below the blank; a line feed is one of them. -/
def IsPlain (s : List Char) : Prop := ∀ c ∈ s, 32 ≤ c.toNat

namespace IsPlain

variable {s t : List Char} {c : Char}

theorem newline_not_mem (h : IsPlain s) : '\n' ∉ s := fun hmem => absurd (h _ hmem) (by decide)

theorem append (hs : IsPlain s) (ht : IsPlain t) : IsPlain (s ++ t) :=
  List.forall_mem_append.mpr ⟨hs, ht⟩

theorem cons (hc : 32 ≤ c.toNat) (hs : IsPlain s) : IsPlain (c :: s) :=
  List.forall_mem_cons.mpr ⟨hc, hs⟩

theorem single (hc : 32 ≤ c.toNat) : IsPlain [c] := List.forall_mem_singleton.mpr hc

theorem flatMap {α : Type} {f : α → List Char} {xs : List α} (h : ∀ x ∈ xs, IsPlain (f x)) :
    IsPlain (xs.flatMap f) := by
  intro c hc
  obtain ⟨x, hx, hcx⟩ := List.mem_flatMap.mp hc
  exact h x hx c hcx

end IsPlain

/-- Texts of which none has a line feed, each followed by one, are what the whole is cut into at
line feeds; after the last of them nothing is left. -/
theorem splitOn_flatMap_newline {lines : List (List Char)} (h : ∀ l ∈ lines, '\n' ∉ l) :
    (lines.flatMap fun l => l ++ ['\n']).splitOn '\n' = lines ++ [[]] := by
  induction lines with
  | nil => rfl
  | cons l lines ih =>
    obtain ⟨hl, hlines⟩ := List.forall_mem_cons.mp h
    rw [List.flatMap_cons, List.append_assoc, List.singleton_append,
      List.splitOn_append_cons_self_of_not_mem hl, ih hlines, List.cons_append]

namespace Json

variable {s : List Char}

theorem le_toNat_hexDigit {n : Nat} (h : n < 16) : 32 ≤ (hexDigit n).toNat := by
  have hall : ∀ m < 16, 32 ≤ (hexDigit m).toNat := by decide
  exact hall n h

/-- Whatever the character is, it is rendered without a control character. -/
theorem isPlain_escapeChar (c : Char) : IsPlain (escapeChar c) := by
  unfold escapeChar
  -- The seven characters with an escape of their own, the other control characters, and the rest.
  split_ifs with _ _ _ _ _ _ _ hlow
  iterate 7
    · exact .cons (by decide) (.single (by decide))
  · have hhigh : 32 ≤ (hexDigit (c.toNat / 16)).toNat := le_toNat_hexDigit (by omega)
    have hrest : 32 ≤ (hexDigit (c.toNat % 16)).toNat := le_toNat_hexDigit (by omega)
    simp only [IsPlain, List.forall_mem_cons]
    exact ⟨by decide, by decide, by decide, by decide, hhigh, hrest, nofun⟩
  · exact .single (Nat.le_of_not_lt hlow)

theorem isPlain_renderText (s : List Char) : IsPlain (renderText s) :=
  .append (.cons (by decide) (.flatMap fun c _ => isPlain_escapeChar c))
    (.single (by decide))

theorem isPlain_listed {isFirst : Bool} {texts : List (List Char)} (h : ∀ x ∈ texts, IsPlain x) :
    IsPlain (listed isFirst texts) := by
  induction texts generalizing isFirst with
  | nil => nofun
  | cons x texts ih =>
    obtain ⟨hx, htexts⟩ := List.forall_mem_cons.mp h
    refine .append (.append ?_ hx) (ih htexts)
    cases isFirst
    · exact .single (by decide)
    · nofun

theorem isPlain_arrayText {items : List (List Char)} (h : ∀ x ∈ items, IsPlain x) :
    IsPlain (arrayText items) := by
  rw [arrayText, intercalate_eq_listed]
  exact .append (.cons (by decide) (isPlain_listed h)) (.single (by decide))

theorem isPlain_objectText {members : List (String × List Char)}
    (h : ∀ m ∈ members, IsPlain m.2) : IsPlain (objectText members) := by
  rw [objectText, intercalate_eq_listed]
  refine .append (.cons (by decide) (isPlain_listed ?_)) (.single (by decide))
  rw [List.forall_mem_map]
  intro m hm
  exact .append (isPlain_renderText _) (.cons (by decide) (h m hm))

end Json

theorem Change.isPlain_render {c : Change} {j : Json} (h : c.toJson? = some j) :
    IsPlain j.render := by
  obtain ⟨path, hpath, rfl⟩ := Option.map_eq_some_iff.1 h
  obtain ⟨s, -, rfl⟩ := Path.toJson?_eq_some_iff.1 hpath
  rw [Json.render_object]
  refine Json.isPlain_objectText ?_
  simp only [List.map_cons, List.map_nil, List.forall_mem_cons, Json.render]
  exact ⟨Json.isPlain_renderText _, Json.isPlain_renderText _, List.forall_mem_nil _⟩

namespace Batch

/-- The paths of the batch are all text. -/
def IsText (b : Batch) : Prop := ∀ c ∈ b.changes, c.path.IsText

instance : DecidablePred IsText := fun b => inferInstanceAs (Decidable (∀ c ∈ b.changes, _))

variable {b : Batch} {j : Json}

/-- **A batch is rendered without a control character**, whatever its paths hold. -/
theorem isPlain_render (h : b.toJson? = some j) : IsPlain j.render := by
  obtain ⟨changes, hchanges, rfl⟩ := Option.map_eq_some_iff.1 h
  rw [Json.render_object, List.map_cons, Json.render_array]
  refine Json.isPlain_objectText ?_
  simp only [List.map_cons, List.map_nil, List.forall_mem_cons, Json.render]
  refine ⟨Json.isPlain_arrayText ?_, Json.isPlain_renderText _, List.forall_mem_nil _⟩
  have hitems : ∀ item ∈ changes, IsPlain item.render :=
    ((List.forall₂_and_left _ _).1 ((mapM_eq_some_iff.1 hchanges).flip.imp
      fun _ _ hc => ⟨Change.isPlain_render hc, hc⟩)).1
  exact List.forall_mem_map.mpr hitems

theorem not_isText_iff : ¬b.IsText ↔ b.toJson? = none := by
  rw [toJson?_eq_none_iff, IsText]
  push Not
  rfl

end Batch

/-! ### Batches that are reported one after the other -/

namespace ReportFormat

variable {format : ReportFormat} {b : Batch} {bs bs' : List Batch}

theorem reportAll_append : format.reportAll (bs ++ bs') =
    format.reportAll bs ++ format.reportAll bs' := List.flatMap_append

theorem reportAll_cons : format.reportAll (b :: bs) =
    format.reportAll [b] ++ format.reportAll bs := by
  rw [← reportAll_append, List.singleton_append]

theorem reportAll_of_ok {text : List Char} (h : format.report b = .ok text) :
    format.reportAll [b] = text := by
  rw [reportAll, List.flatMap_singleton, h]
  rfl

theorem reportAll_of_error {f : Failure} (h : format.report b = .error f) :
    format.reportAll [b] = [] := by
  rw [reportAll, List.flatMap_singleton, h]
  rfl

/-- A batch whose paths are all text is reported as one line, from which it is read. -/
theorem report_of_isText (h : b.IsText) : ∃ line,
    IsPlain line ∧ Json.decode Batch.decode (String.ofList line) = .ok b ∧
      json.report b = .ok (line ++ ['\n']) := by
  have hsome : b.toJson? ≠ none := fun hnone => Batch.not_isText_iff.mpr hnone h
  obtain ⟨j, hj⟩ := Option.ne_none_iff_exists'.mp hsome
  have hread : Json.decode Batch.decode (String.ofList j.render) = .ok b :=
    Json.decode_ofList (by simpa using Batch.decode_of_spells (Batch.spells_render hj) [])
  exact ⟨j.render, Batch.isPlain_render hj, hread, by rw [report, hj]⟩

/-- Any other batch is rejected. -/
theorem report_of_not_isText (h : ¬b.IsText) :
    json.report b = .error (.other "path contains invalid UTF-8 characters" []) := by
  rw [report, Batch.not_isText_iff.mp h]

/-- What is written for batches is one line for each whose paths are all text. -/
theorem exists_lines (bs : List Batch) : ∃ lines : List (List Char),
    (∀ line ∈ lines, IsPlain line) ∧
      json.reportAll bs = (lines.flatMap fun line => line ++ ['\n']) ∧
      lines.map (fun line => Json.decode Batch.decode (String.ofList line)) =
        (bs.filter fun b => b.IsText).map .ok := by
  induction bs with
  | nil => exact ⟨[], nofun, rfl, rfl⟩
  | cons b bs ih =>
    obtain ⟨lines, hplain, hwritten, hread⟩ := ih
    rw [reportAll_cons, hwritten]
    by_cases htext : b.IsText
    · obtain ⟨line, hline, hdecode, hreport⟩ := report_of_isText htext
      refine ⟨line :: lines, List.forall_mem_cons.mpr ⟨hline, hplain⟩, ?_, ?_⟩
      · rw [reportAll_of_ok hreport, List.flatMap_cons]
      · rw [List.map_cons, hdecode, hread, List.filter_cons_of_pos (by simpa using htext),
          List.map_cons]
    · refine ⟨lines, hplain, ?_, ?_⟩
      · rw [reportAll_of_error (report_of_not_isText htext), List.nil_append]
      · rw [hread, List.filter_cons_of_neg (by simpa using htext)]

end ReportFormat

/-! ### Sessions -/

namespace Session

/-- A batch that is delivered is reported, after what was written before. -/
theorem output_deliver (s : Session) (b : Batch) :
    (s.deliver b).output = s.output ++ s.format.reportAll [b] := by
  rw [deliver]
  split
  · next text htext =>
    rw [ReportFormat.reportAll_of_ok htext]
    rfl
  · next f hfailed =>
    rw [ReportFormat.reportAll_of_error hfailed, List.append_nil]
    rfl

theorem format_deliver (s : Session) (b : Batch) : (s.deliver b).format = s.format := by
  rw [deliver]
  split <;> rfl

theorem output_foldl_deliver (s : Session) (bs : List Batch) :
    (bs.foldl deliver s).output = s.output ++ s.format.reportAll bs := by
  induction bs generalizing s with
  | nil => exact (List.append_nil _).symm
  | cons b bs ih =>
    rw [List.foldl_cons, ih, format_deliver, output_deliver, List.append_assoc,
      ← ReportFormat.reportAll_cons]

/-- What the session has written is followed by what is written for further batches, and by nothing
else. -/
def Extends (s s' : Session) : Prop :=
  s'.format = s.format ∧ ∃ bs, s'.output = s.output ++ s.format.reportAll bs

variable {s s' s'' : Session}

theorem Extends.refl (s : Session) : s.Extends s := ⟨rfl, [], (List.append_nil _).symm⟩

theorem Extends.trans (h : s.Extends s') (h' : s'.Extends s'') : s.Extends s'' := by
  obtain ⟨hformat, bs, hbs⟩ := h
  obtain ⟨hformat', bs', hbs'⟩ := h'
  refine ⟨hformat'.trans hformat, bs ++ bs', ?_⟩
  rw [hbs', hbs, hformat, ReportFormat.reportAll_append, List.append_assoc]

theorem extends_perform (s : Session) (stimulus : Stimulus) : s.Extends (s.perform stimulus) :=
  .refl s

theorem extends_deliver (s : Session) (b : Batch) : s.Extends (s.deliver b) :=
  ⟨s.format_deliver b, [b], s.output_deliver b⟩

theorem extends_turn (h : s.turn = some s') : s.Extends s' := by
  obtain ⟨⟨loop, records⟩, -, rfl⟩ := Option.map_eq_some_iff.mp h
  dsimp only
  split
  · exact .trans (.refl s) (extends_deliver _ _)
  · exact .refl s

theorem extends_settleWithin (turns : Nat) (s : Session) : s.Extends (settleWithin turns s) := by
  induction turns generalizing s with
  | zero => exact .refl s
  | succ turns ih =>
    rw [settleWithin]
    split
    · exact .refl s
    · next s' hturn => exact (extends_turn hturn).trans (ih s')

theorem extends_foldl {α : Type} {f : Session → α → Session}
    (hf : ∀ (s : Session) x, s.Extends (f s x)) (xs : List α) (s : Session) :
    s.Extends (xs.foldl f s) := by
  induction xs generalizing s with
  | nil => exact .refl s
  | cons x xs ih => exact (hf s x).trans (ih (f s x))

theorem extends_submit (s : Session) (stimuli : List Stimulus) : s.Extends (s.submit stimuli) :=
  (extends_foldl extends_perform stimuli s).trans (extends_settleWithin _ _)

theorem extends_edit (s : Session) (e : Edit) : s.Extends (s.edit e) :=
  .trans (.refl s) (extends_submit _ _)

theorem extends_rest (s : Session) : s.Extends s.rest := extends_submit s _

end Session

/-- A session begins with nothing written. -/
theorem Invocation.startWatching_eq_ok {fs : FileSystem} {env : Environment}
    {config? root? : Option Path} {debounceMs? : Option UInt64} {asJson : Bool} {session : Session}
    (h : startWatching fs env config? root? debounceMs? asJson = .ok session) :
    session.format = (if asJson then .json else .log) ∧ session.output = [] := by
  obtain ⟨settings, -, h⟩ := exists_of_bind_eq_ok h
  obtain ⟨-, -, h⟩ := exists_of_bind_eq_ok h
  obtain ⟨watcher, -, rfl⟩ := map_eq_ok_iff.1 (mapError_eq_ok_iff.1 h)
  exact ⟨rfl, rfl⟩

/-- **The output of a watch** that reports in JSON is that of batches that are reported one after
the other, whatever happens to the files meanwhile. -/
theorem Invocation.output_run (i : Invocation) (fs : FileSystem) (env : Environment)
    (edits : List Edit) {root? : Option Path} {debounceMs? : Option UInt64}
    (hwatch : i.command = .watch root? debounceMs? true) :
    ∃ bs, (i.run fs env edits).output = ReportFormat.json.reportAll bs := by
  rw [run, hwatch]
  dsimp only
  split
  · next session hstart =>
    obtain ⟨hformat, hempty⟩ := startWatching_eq_ok hstart
    obtain ⟨-, bs, hbs⟩ := Session.extends_foldl
      (fun s e => (s.extends_edit e).trans (s.edit e).extends_rest) edits session
    rw [hformat, hempty] at hbs
    exact ⟨bs, hbs⟩
  · exact ⟨[], rfl⟩

/-! ### Whole lines -/

namespace ReportFormat

/-- **Lines of JSON.** Whatever batches are delivered one after the other, the reports of them are
what is written. Cut at line feeds that gives lines, with nothing left after the last, and from the
lines the batches are read whose paths are all text, in order. Each of those is accepted and appends
one line to what was written before it. Every other batch is rejected, and nothing is written for
it. -/
theorem frames_reportAll (bs : List Batch) :
    (∀ s : Session, s.format = .json →
      (bs.foldl Session.deliver s).output = s.output ++ json.reportAll bs) ∧
    (∃ lines : List (List Char), (json.reportAll bs).splitOn '\n' = lines ++ [[]] ∧
      lines.map (fun line => Json.decode Batch.decode (String.ofList line)) =
        (bs.filter fun b => b.IsText).map .ok) ∧
    ∀ (before : List Batch) (b : Batch),
      (b.IsText → ∃ line, '\n' ∉ line ∧ json.report b = .ok (line ++ ['\n']) ∧
        json.reportAll (before ++ [b]) = json.reportAll before ++ line ++ ['\n']) ∧
      (¬b.IsText →
        json.report b = .error (.other "path contains invalid UTF-8 characters" []) ∧
        json.reportAll (before ++ [b]) = json.reportAll before) := by
  refine ⟨fun s hs => ?_, ?_, ?_⟩
  · rw [s.output_foldl_deliver, hs]
  · obtain ⟨lines, hplain, hwritten, hread⟩ := exists_lines bs
    refine ⟨lines, ?_, hread⟩
    rw [hwritten]
    exact splitOn_flatMap_newline fun line hline => (hplain line hline).newline_not_mem
  · intro before b
    rw [reportAll_append]
    refine ⟨fun htext => ?_, fun hnot => ?_⟩
    · obtain ⟨line, hline, -, hreport⟩ := report_of_isText htext
      refine ⟨line, hline.newline_not_mem, hreport, ?_⟩
      rw [reportAll_of_ok hreport, List.append_assoc]
    · have hreport := report_of_not_isText hnot
      refine ⟨hreport, ?_⟩
      rw [reportAll_of_error hreport, List.append_nil]

/-- A path with a line feed, a quote and a control character is read back; a batch that has been
rejected before it leaves no trace. -/
theorem frames_reportAll_newline :
    let odd : Batch := .ofDisk [.created (.ofString "/a\n\"\x01")]
    let raw : Batch := .ofDisk [.created (.ofString "/b"), .deleted ⟨[47, 255]⟩]
    odd.IsText ∧ ¬raw.IsText ∧
    (∃ f, json.report raw = .error f) ∧
    ∃ line : List Char, (json.reportAll [raw, odd]).splitOn '\n' = [line, []] ∧
      Json.decode Batch.decode (String.ofList line) = .ok odd := by
  intro odd raw
  have hodd : odd.IsText := List.forall_mem_singleton.mpr ⟨_, rfl⟩
  have hraw : ¬raw.IsText := by decide
  obtain ⟨-, ⟨lines, hsplit, hread⟩, hcalls⟩ := frames_reportAll [raw, odd]
  refine ⟨hodd, hraw, ⟨_, ((hcalls [] raw).2 hraw).1⟩, ?_⟩
  rw [List.filter_cons_of_neg (by simpa using hraw),
    List.filter_cons_of_pos (by simpa using hodd), List.filter_nil, List.map_singleton,
    List.map_eq_singleton_iff] at hread
  obtain ⟨line, rfl, hdecode⟩ := hread
  exact ⟨line, hsplit, hdecode⟩

end ReportFormat

end WorkspaceWatch
