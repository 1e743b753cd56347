import WorkspaceWatch.Change.Json
import WorkspaceWatch.Proofs.Json.Record
import WorkspaceWatch.Proofs.Text.Utf8
import WorkspaceWatch.Tally

/-!
# The JSON form of batches and counters

What is written for a batch, a change or the counters can be spelled in other ways: `Spells` allows
the members of each object in any order, and other members of any JSON value between them. All
spellings are read back as the same batch or counters. For a batch that was read from a text, in
whatever form, the invariant is that paths are text, which is all it takes to write it again.

Main statement: `json_roundtrip`.
-/

namespace WorkspaceWatch

open Json (Decoder Decodes IsRecord Preserves RecordField Takes arrayText decodeRecord renderText)

namespace Path

/-- The path is text: its bytes are the UTF-8 form of one. -/
def IsText (p : Path) : Prop := ∃ s : String, p = ofString s

theorem toJson?_eq_some_iff {p : Path} {j : Json} :
    p.toJson? = some j ↔ ∃ s : String, p = ofString s ∧ j = .text s := by
  simp only [toJson?, Option.map_eq_some_iff, Utf8.decode?_eq_some_iff]
  constructor
  · rintro ⟨s, hs, rfl⟩
    exact ⟨String.ofList s, by simp [ofString, ← hs], rfl⟩
  · rintro ⟨s, rfl, rfl⟩
    exact ⟨s.toList, rfl, by rw [String.ofList_toList]⟩

theorem decode_renderText (s : String) (t : List Char) :
    decode (renderText s.toList ++ t) = .ok (ofString s, t) := by
  rw [decode, Json.decodeText_renderText, String.ofList_toList]
  rfl

theorem isText_of_decode {s r : List Char} {p : Path} (h : decode s = .ok (p, r)) : p.IsText := by
  obtain ⟨a, -, ha⟩ := map_eq_ok_iff.1 h
  cases ha
  exact ⟨a.1, rfl⟩

end Path

namespace Change

/-- What the members of a change's JSON form are written as. -/
def memberTexts (c : Change) (path : String) : List (String × List Char) :=
  [("path", renderText path.toList), ("kind", renderText c.kind.name.toList)]

/-- The text is an object that gives the path and the kind of the change, with anything else between
them. -/
def Spells (c : Change) (text : List Char) : Prop :=
  ∃ s : String, c.path = .ofString s ∧ IsRecord (c.memberTexts s) text

/-- What has been read so far is right. -/
def Agrees (c : Change) (d : Draft) : Prop :=
  (∀ p, d.path? = some p → p = c.path) ∧ ∀ k, d.kind? = some k → k = c.kind

variable {c : Change} {s : String} {text : List Char}

theorem takes_memberTexts (hs : c.path = .ofString s) :
    ∀ m ∈ c.memberTexts s, Takes fields c.Agrees m := by
  rw [memberTexts, List.forall_mem_cons, List.forall_mem_singleton]
  constructor
  · refine ⟨_, List.mem_cons_self, rfl, fun {d t} hd ht =>
      ⟨{ d with path? := some c.path }, ?_, ⟨?_, hd.2⟩, ?_⟩⟩
    · dsimp only
      rw [Path.decode_renderText, hs]
      rfl
    · rintro p ⟨⟩
      rfl
    · simp [fields]
  · refine ⟨_, List.mem_cons_of_mem _ List.mem_cons_self, rfl, fun {d t} hd ht =>
      ⟨{ d with kind? := some c.kind }, ?_, ⟨hd.1, ?_⟩, ?_⟩⟩
    · have hfind : [("Created", ChangeKind.created), ("Changed", .changed),
          ("Deleted", .deleted)].find? (fun n => n.1 = c.kind.name) =
            some (c.kind.name, c.kind) := by
        cases c.kind <;> decide
      dsimp only
      rw [Json.decodeName_renderText hfind]
      rfl
    · rintro k ⟨⟩
      rfl
    · simp [fields]

theorem decodes_of_spells (h : c.Spells text) : Decodes decode text c := by
  obtain ⟨s, hs, hrecord⟩ := h
  refine ⟨Json.opens_of_isRecord hrecord, fun {t} _ => ?_⟩
  obtain ⟨⟨path?, kind?⟩, hread, ⟨hpath, hkind⟩, hfilled⟩ :=
    Json.decodeRecord_of_isRecord (takes_memberTexts hs) rfl (by decide) {} ⟨nofun, nofun⟩
      (by simp [fields]) hrecord t
  rw [decode, hread]
  simp only [fields, List.forall_mem_cons, Option.isSome_iff_exists] at hfilled
  obtain ⟨⟨p, rfl⟩, ⟨k, rfl⟩, -⟩ := hfilled
  rw [hpath p rfl, hkind k rfl]

/-- A change that has a JSON form is written as one of its spellings. -/
theorem spells_render {j : Json} (h : c.toJson? = some j) : c.Spells j.render := by
  obtain ⟨path, hpath, rfl⟩ := Option.map_eq_some_iff.1 h
  obtain ⟨s, hs, rfl⟩ := Path.toJson?_eq_some_iff.1 hpath
  refine ⟨s, hs, ?_⟩
  rw [Json.render_object]
  exact Json.isRecord_of_perm (List.Perm.refl _)

theorem toJson?_isSome_iff : c.toJson?.isSome = true ↔ c.path.IsText := by
  rw [toJson?, Option.isSome_map, Option.isSome_iff_exists]
  simp only [Path.toJson?_eq_some_iff]
  exact ⟨fun ⟨_, s, hs, _⟩ => ⟨s, hs⟩, fun ⟨s, hs⟩ => ⟨_, s, hs, rfl⟩⟩

/-- A path that has been read is text. -/
theorem preserves_isText : Preserves fields fun d => ∀ p, d.path? = some p → p.IsText := by
  rw [Preserves, fields, List.forall_mem_cons, List.forall_mem_singleton]
  constructor
  · intro d s d' r hd hfill
    obtain ⟨⟨p, r'⟩, hread, hd'⟩ := map_eq_ok_iff.1 hfill
    cases hd'
    rintro _ ⟨⟩
    exact Path.isText_of_decode hread
  · intro d s d' r hd hfill
    obtain ⟨a, -, hd'⟩ := map_eq_ok_iff.1 hfill
    cases hd'
    exact hd

theorem isText_of_decode {s r : List Char} (h : decode s = .ok (c, r)) : c.path.IsText := by
  rw [decode] at h
  split at h
  · cases h
  · next hread =>
    cases h
    exact preserves_isText.decodeRecord hread nofun _ rfl
  · cases h

end Change

namespace Batch

/-- What the members of a batch's JSON form are written as, where the changes are written as the
given texts. -/
def memberTexts (b : Batch) (changes : List (List Char)) : List (String × List Char) :=
  [("events", arrayText changes), ("origin", renderText b.origin.name.toList)]

/-- The text is an object that gives the changes and the origin of the batch, with anything else
between them, and the same holds for each change. -/
def Spells (b : Batch) (text : List Char) : Prop :=
  ∃ changes, List.Forall₂ Change.Spells b.changes changes ∧ IsRecord (b.memberTexts changes) text

/-- What has been read so far is right. -/
def Agrees (b : Batch) (d : Draft) : Prop :=
  (∀ cs, d.changes? = some cs → cs = b.changes) ∧ ∀ o, d.origin? = some o → o = b.origin

variable {b : Batch} {changes : List (List Char)} {text : List Char}

theorem takes_memberTexts (h : List.Forall₂ Change.Spells b.changes changes) :
    ∀ m ∈ b.memberTexts changes, Takes fields b.Agrees m := by
  rw [memberTexts, List.forall_mem_cons, List.forall_mem_singleton]
  constructor
  · refine ⟨_, List.mem_cons_self, rfl, fun {d t} hd ht =>
      ⟨{ d with changes? := some b.changes }, ?_, ⟨?_, hd.2⟩, ?_⟩⟩
    · have hitems : List.Forall₂ (Decodes Change.decode) changes b.changes :=
        (h.imp fun _ _ => Change.decodes_of_spells).flip
      dsimp only
      rw [Json.decodeList_arrayText hitems]
      rfl
    · rintro cs ⟨⟩
      rfl
    · simp [fields]
  · refine ⟨_, List.mem_cons_of_mem _ List.mem_cons_self, rfl, fun {d t} hd ht =>
      ⟨{ d with origin? := some b.origin }, ?_, ⟨hd.1, ?_⟩, ?_⟩⟩
    · have hfind : [("Disk", Origin.disk), ("Editor", .editor)].find?
          (fun n => n.1 = b.origin.name) = some (b.origin.name, b.origin) := by
        cases b.origin <;> decide
      dsimp only
      rw [Json.decodeName_renderText hfind]
      rfl
    · rintro o ⟨⟩
      rfl
    · simp [fields]

theorem decode_of_spells (h : b.Spells text) (t : List Char) : decode (text ++ t) = .ok (b, t) := by
  obtain ⟨changes, hchanges, hrecord⟩ := h
  obtain ⟨⟨changes?, origin?⟩, hread, ⟨hcs, ho⟩, hfilled⟩ :=
    Json.decodeRecord_of_isRecord (takes_memberTexts hchanges) rfl (by decide) {} ⟨nofun, nofun⟩
      (by simp [fields]) hrecord t
  rw [decode, hread]
  simp only [fields, List.forall_mem_cons, Option.isSome_iff_exists] at hfilled
  obtain ⟨⟨cs, rfl⟩, ⟨o, rfl⟩, -⟩ := hfilled
  rw [hcs cs rfl, ho o rfl]

theorem spells_render {j : Json} (h : b.toJson? = some j) : b.Spells j.render := by
  obtain ⟨changes, hchanges, rfl⟩ := Option.map_eq_some_iff.1 h
  refine ⟨changes.map Json.render, ?_, ?_⟩
  · rw [List.forall₂_map_right_iff]
    exact (mapM_eq_some_iff.1 hchanges).imp fun _ _ => Change.spells_render
  · rw [Json.render_object, List.map_cons, Json.render_array]
    exact Json.isRecord_of_perm (List.Perm.refl _)

theorem toJson?_eq_none_iff : b.toJson? = none ↔ ∃ c ∈ b.changes, ¬c.path.IsText := by
  rw [toJson?, Option.map_eq_none_iff, ← Option.not_isSome_iff_eq_none, mapM_isSome_iff]
  simp only [Change.toJson?_isSome_iff, not_forall, exists_prop]

/-- Every change that has been read has a path that is text. -/
theorem preserves_isText :
    Preserves fields fun d => ∀ cs, d.changes? = some cs → ∀ c ∈ cs, c.path.IsText := by
  rw [Preserves, fields, List.forall_mem_cons, List.forall_mem_singleton]
  constructor
  · intro d s d' r hd hfill
    obtain ⟨⟨cs, r'⟩, hread, hd'⟩ := map_eq_ok_iff.1 hfill
    cases hd'
    rintro _ ⟨⟩
    exact Json.forall_of_decodeList Change.isText_of_decode hread
  · intro d s d' r hd hfill
    obtain ⟨a, -, hd'⟩ := map_eq_ok_iff.1 hfill
    cases hd'
    exact hd

theorem isText_of_decode {s r : List Char} (h : decode s = .ok (b, r)) :
    ∀ c ∈ b.changes, c.path.IsText := by
  rw [decode] at h
  split at h
  · cases h
  · next hread =>
    cases h
    exact preserves_isText.decodeRecord hread nofun _ rfl
  · cases h

end Batch

namespace Tally

/-- What the members of the counters' JSON form are written as. -/
def memberTexts (t : Tally) : List (String × List Char) :=
  counters.map fun c => (c.name, Nat.toDigits 10 (c.get t).toNat)

/-- The text is an object that gives the ten counters, with anything else between them. -/
def Spells (t : Tally) (text : List Char) : Prop := IsRecord t.memberTexts text

/-- The counters as fields of a record. -/
def fields : List (RecordField Draft) := counters.map fun c =>
  { name := c.name
    isFilled := fun d => d.given.contains c.name
    fill := fun d s => (Json.decodeUInt64 s).map fun r =>
      ({ tally := c.set r.1 d.tally, given := c.name :: d.given }, r.2) }

theorem decode_eq (s : List Char) :
    decode s = (decodeRecord fields {} s).map fun r => (r.1.tally, r.2) := rfl

/-- What has been read so far is right. -/
def Agrees (t : Tally) (d : Draft) : Prop :=
  ∀ c ∈ counters, c.name ∈ d.given → c.get d.tally = c.get t

theorem get_set : ∀ c ∈ counters, ∀ c' ∈ counters, ∀ n t,
    c'.get (c.set n t) = if c'.name = c.name then n else c'.get t := by
  simp [counters]

theorem ext_get {t t' : Tally} (h : ∀ c ∈ counters, c.get t = c.get t') : t = t' := by
  simp only [counters, List.forall_mem_cons] at h
  cases t
  cases t'
  simp_all

variable {t : Tally} {text : List Char}

theorem takes_memberTexts (t : Tally) : ∀ m ∈ t.memberTexts, Takes fields t.Agrees m := by
  intro m hm
  obtain ⟨c, hc, rfl⟩ := List.mem_map.1 hm
  refine ⟨_, List.mem_map.2 ⟨c, hc, rfl⟩, rfl, fun {d rest} hd hrest =>
    ⟨⟨c.set (c.get t) d.tally, c.name :: d.given⟩, ?_, ?_, ?_⟩⟩
  · dsimp only
    rw [Json.decodeUInt64_toDigits hrest]
    rfl
  · intro c' hc' hgiven
    rw [get_set c hc c' hc']
    split
    · next hname =>
      have hnodup : (counters.map Counter.name).Nodup := by decide
      rw [List.inj_on_of_nodup_map hnodup hc' hc hname]
    · next hname => exact hd c' hc' ((List.mem_cons.1 hgiven).resolve_left hname)
  · intro f hf
    obtain ⟨c', hc', rfl⟩ := List.mem_map.1 hf
    simp

theorem decode_of_spells (h : t.Spells text) (rest : List Char) :
    decode (text ++ rest) = .ok (t, rest) := by
  obtain ⟨d, hread, hd, hfilled⟩ := Json.decodeRecord_of_isRecord t.takes_memberTexts
    (by rw [memberTexts, fields, List.map_map, List.map_map]; rfl) (by decide) {} nofun
    (by simp [fields]) h rest
  have hall : ∀ c ∈ counters, c.get d.tally = c.get t := by
    intro c hc
    refine hd c hc ?_
    simpa using hfilled _ (List.mem_map_of_mem hc)
  rw [decode_eq, hread, ← ext_get hall]
  rfl

theorem spells_render (t : Tally) : t.Spells t.toJson.render := by
  rw [toJson, Json.render_object, List.map_map]
  simp only [Function.comp_def, Json.render_ofNat]
  exact Json.isRecord_of_perm (List.Perm.refl _)

end Tally

theorem Json.decode_ofList {α : Type} {d : Decoder α} {v : α} {s : List Char}
    (h : d s = .ok (v, [])) : Json.decode d (String.ofList s) = .ok v := by
  rw [Json.decode, String.toList_ofList, h]
  rfl

/-- **The JSON form of batches and counters.** A batch has a JSON form exactly if all of its paths
are text. What is written is one of the spellings, which differ in the order of members and in what
other members there are, and every spelling is read back as the same batch, or counters, with the
same spelling of each path. Whatever is read as a batch can be written, and is then read back. -/
theorem json_roundtrip :
    (∀ b : Batch, b.toJson? = none ↔ ∃ c ∈ b.changes, ¬c.path.IsText) ∧
    (∀ (b : Batch) (j : Json), b.toJson? = some j →
      b.Spells j.render ∧ Json.decode Batch.decode (String.ofList j.render) = .ok b) ∧
    (∀ t : Tally, t.Spells t.toJson.render ∧
      Json.decode Tally.decode (String.ofList t.toJson.render) = .ok t) ∧
    (∀ (b : Batch) (text : List Char), b.Spells text →
      Json.decode Batch.decode (String.ofList text) = .ok b) ∧
    (∀ (t : Tally) (text : List Char), t.Spells text →
      Json.decode Tally.decode (String.ofList text) = .ok t) ∧
    ∀ (text : String) (b : Batch), Json.decode Batch.decode text = .ok b →
      ∃ j, b.toJson? = some j ∧ Json.decode Batch.decode (String.ofList j.render) = .ok b := by
  have hbatch (b : Batch) (text : List Char) (h : b.Spells text) :
      Json.decode Batch.decode (String.ofList text) = .ok b :=
    Json.decode_ofList (by simpa using b.decode_of_spells h [])
  have htally (t : Tally) (text : List Char) (h : t.Spells text) :
      Json.decode Tally.decode (String.ofList text) = .ok t :=
    Json.decode_ofList (by simpa using t.decode_of_spells h [])
  refine ⟨fun b => Batch.toJson?_eq_none_iff, fun b j h => ?_, fun t => ?_, hbatch, htally,
    fun text b h => ?_⟩
  · exact ⟨Batch.spells_render h, hbatch b _ (Batch.spells_render h)⟩
  · exact ⟨t.spells_render, htally t _ t.spells_render⟩
  · have htext : ∀ c ∈ b.changes, c.path.IsText := by
      rw [Json.decode] at h
      split at h
      · cases h
      · next hread =>
        split at h
        · cases h
          exact Batch.isText_of_decode hread
        · cases h
    have hsome : b.toJson? ≠ none := by
      rw [Ne, Batch.toJson?_eq_none_iff]
      rintro ⟨c, hc, hnot⟩
      exact hnot (htext c hc)
    obtain ⟨j, hj⟩ := Option.ne_none_iff_exists'.1 hsome
    exact ⟨j, hj, hbatch b _ (Batch.spells_render hj)⟩

/-- A batch is read from a text in which members are swapped and another one is between. -/
theorem json_roundtrip_swapped :
    let b : Batch := .ofDisk [.created (.ofString "/a")]
    let change := "\x7b\"kind\":\"Created\",\"path\":\"/a\"\x7d"
    let text := "\x7b\"origin\":\"Disk\",\"by\":[null],\"events\":[" ++ change ++ "]\x7d"
    b.Spells text.toList ∧ Json.decode Batch.decode text = .ok b := by
  intro b change text
  have hchange : (Change.created (.ofString "/a")).Spells change.toList := by
    have htext : change.toList = Json.objectText
      [("kind", "\"Created\"".toList), ("path", "\"/a\"".toList)] := by decide
    rw [htext]
    exact ⟨"/a", rfl, Json.isRecord_of_perm (by decide)⟩
  have hnull : Json.IsJson "[null]".toList := ⟨.array [.null], rfl⟩
  have hspells : b.Spells text.toList := by
    refine ⟨[change.toList], .cons hchange .nil, [("origin", "\"Disk\"".toList),
      ("by", "[null]".toList), ("events", arrayText [change.toList])], by decide, by decide, ?_⟩
    simp only [List.forall_mem_cons]
    exact ⟨fun hother => absurd rfl (hother _ (List.mem_cons_of_mem _ List.mem_cons_self)),
      fun _ => hnull, fun hother => absurd rfl (hother _ List.mem_cons_self), nofun⟩
  have hread := json_roundtrip.2.2.2.1 b text.toList hspells
  rw [String.ofList_toList] at hread
  exact ⟨hspells, hread⟩

end WorkspaceWatch
