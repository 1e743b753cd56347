import Mathlib.Data.List.Nodup
import WorkspaceWatch.Proofs.Json.Passing
import WorkspaceWatch.Proofs.Json.Written

/-!
# Arrays and records

A text of a record (`IsRecord`) gives the members that the record declares, in any order, and other
members anywhere between them. Decoding goes through the members from left to right. The invariant
is `Completes`: the members that are left fill the fields that are not filled yet, each once. What
has been read so far is described by a predicate `I` on the state, which each field keeps
(`Takes`), so that nothing depends on the order of the members.

The last section is about records in any form, also as an array of their fields: what every field
keeps holds of what is decoded (`Preserves.decodeRecord`).

Main statements: `decodeList_arrayText`, `decodeRecord_of_isRecord`.
-/

namespace WorkspaceWatch

namespace Json

variable {α σ : Type} {s s' t text : List Char} {c close : Char} {isFirst : Bool}

/-! ### Texts with commas between -/

/-- Texts with commas between them, and one before the first unless it is to stand first. -/
def listed (isFirst : Bool) : List (List Char) → List Char
  | [] => []
  | x :: xs => (if isFirst then [] else [',']) ++ x ++ listed false xs

theorem intercalate_eq_listed (xs : List (List Char)) : [','].intercalate xs = listed true xs := by
  match xs with
  | [] => rfl
  | [x] => simp [listed]
  | x :: y :: xs =>
    have ih := intercalate_eq_listed (y :: xs)
    rw [List.intercalate_cons_cons, ih]
    simp [listed]

/-- The text starts with what can start an item of a list that ends at `close`. -/
def Opens (close : Char) (x : List Char) : Prop :=
  ∃ c s, x = c :: s ∧ isBlank c = false ∧ c ≠ close

theorem length_le_length_listed {xs : List (List Char)} (h : ∀ x ∈ xs, Opens close x) :
    xs.length ≤ (listed isFirst xs).length := by
  induction xs generalizing isFirst with
  | nil => exact Nat.zero_le _
  | cons x xs ih =>
    obtain ⟨⟨c, s, rfl, -⟩, hxs⟩ := List.forall_mem_cons.1 h
    have hrest : xs.length ≤ (listed false xs).length := ih hxs
    simp only [listed, List.length_append, List.length_cons]
    omega

theorem breaks_cons :
    Breaks (c :: t) ↔ c.isDigit = false ∧ c ≠ '.' ∧ c ≠ 'e' ∧ c ≠ 'E' := by
  simp [Breaks]

theorem breaks_listed {xs : List (List Char)} (h : Breaks (close :: t)) :
    Breaks (listed false xs ++ close :: t) := by
  cases xs with
  | nil => exact h
  | cons x xs => exact breaks_cons.2 (by decide)

theorem nextItem_congr (h : skipBlank s = skipBlank s') :
    nextItem close isFirst s = nextItem close isFirst s' := by
  simp only [nextItem, h]

theorem expectChar_congr (h : skipBlank s = skipBlank s') : expectChar c s = expectChar c s' := by
  simp only [expectChar, h]

/-- The next of the items to be listed comes next. -/
theorem nextItem_listed {x : List Char} {xs : List (List Char)} (hcomma : close ≠ ',')
    (hx : Opens close x) : nextItem close isFirst (listed isFirst (x :: xs) ++ t) =
      .ok (some (x ++ (listed false xs ++ t))) := by
  obtain ⟨c, s, rfl, hblank, hclose⟩ := hx
  cases isFirst with
  | true =>
    simp [listed, nextItem, skipBlank_cons hblank, hclose]
  | false =>
    have hskip {s : List Char} : skipBlank (',' :: s) = ',' :: s := skipBlank_cons rfl
    simp [listed, nextItem, skipBlank_cons hblank, hclose, hskip, hcomma.symm]

theorem nextItem_close (hblank : isBlank close = false) :
    nextItem close isFirst (close :: t) = .ok none := by
  simp [nextItem, skipBlank_cons hblank]

theorem expectChar_self (hblank : isBlank c = false) : expectChar c (c :: t) = .ok t := by
  simp [expectChar, skipBlank_cons hblank]

/-! ### Arrays -/

/-- The text of an array of the given items. -/
def arrayText (items : List (List Char)) : List Char := '[' :: [','].intercalate items ++ [']']

/-- The decoder reads the text as the value, whatever comes after it. -/
structure Decodes (item : Decoder α) (x : List Char) (v : α) : Prop where
  opens : Opens ']' x
  decode : ∀ {t}, Breaks t → item (x ++ t) = .ok (v, t)

theorem decodeItems_listed {item : Decoder α} {texts : List (List Char)} {vs : List α} {fuel : Nat}
    (h : List.Forall₂ (Decodes item) texts vs) (hfuel : texts.length < fuel) :
    decodeItems item fuel isFirst (listed isFirst texts ++ ']' :: t) = .ok (vs, t) := by
  induction h generalizing isFirst fuel with
  | nil =>
    obtain ⟨fuel, rfl⟩ := Nat.exists_eq_add_of_lt hfuel
    have hnext : nextItem ']' isFirst (']' :: t) = .ok none := nextItem_close rfl
    have hexpect : expectChar ']' (']' :: t) = .ok t := expectChar_self rfl
    simp only [listed, List.nil_append, decodeItems, hnext, hexpect]
    rfl
  | @cons x v texts vs hx _ ih =>
    obtain ⟨fuel, rfl⟩ := Nat.exists_eq_add_of_le' (Nat.one_le_of_lt hfuel)
    have hnext : nextItem ']' isFirst (listed isFirst (x :: texts) ++ ']' :: t) =
        .ok (some (x ++ (listed false texts ++ ']' :: t))) := nextItem_listed (by decide) hx.opens
    have hitem : item (x ++ (listed false texts ++ ']' :: t)) =
        .ok (v, listed false texts ++ ']' :: t) :=
      hx.decode (breaks_listed (breaks_cons.2 (by decide)))
    have hrest : decodeItems item fuel false (listed false texts ++ ']' :: t) = .ok (vs, t) :=
      ih (Nat.lt_of_succ_lt_succ hfuel)
    simp only [decodeItems, hnext, hitem, hrest]
    rfl

/-- **An array is decoded item by item**. -/
theorem decodeList_arrayText {item : Decoder α} {texts : List (List Char)} {vs : List α}
    (h : List.Forall₂ (Decodes item) texts vs) (t : List Char) :
    decodeList item (arrayText texts ++ t) = .ok (vs, t) := by
  have htext : arrayText texts ++ t = '[' :: (listed true texts ++ ']' :: t) := by
    rw [arrayText, intercalate_eq_listed, List.cons_append, List.cons_append, List.append_assoc]
    rfl
  have hopens : ∀ x ∈ texts, Opens ']' x :=
    ((List.forall₂_and_left _ _).1 (h.imp fun _ _ hx => ⟨hx.opens, hx⟩)).1
  have hfuel : texts.length < (listed true texts ++ ']' :: t).length + 1 := by
    have hle : texts.length ≤ (listed true texts).length := length_le_length_listed hopens
    simp only [List.length_append]
    omega
  have hskip : skipBlank (arrayText texts ++ t) = '[' :: (listed true texts ++ ']' :: t) := by
    rw [htext]
    exact skipBlank_cons rfl
  simp only [decodeList, hskip, decodeItems_listed h hfuel]

/-! ### Objects -/

/-- The text of a member of an object. -/
def memberText (m : String × List Char) : List Char := renderText m.1.toList ++ ':' :: m.2

/-- The text of an object with the given members. -/
def objectText (members : List (String × List Char)) : List Char :=
  '\x7b' :: [','].intercalate (members.map memberText) ++ ['\x7d']

theorem opens_memberText (m : String × List Char) : Opens '\x7d' (memberText m) :=
  ⟨'"', _, rfl, by decide, by decide⟩

variable {fields : List (RecordField σ)} {I : σ → Prop} {m : String × List Char}

/-- The record has a field of that name. -/
def IsKnown (fields : List (RecordField σ)) (name : String) : Prop := ∃ f ∈ fields, f.name = name

/-- A member of a record that is taken as one of its fields: the state stays one that `I` describes,
and no other field is filled. -/
def Takes (fields : List (RecordField σ)) (I : σ → Prop) (m : String × List Char) : Prop :=
  ∃ f ∈ fields, f.name = m.1 ∧ ∀ {st t}, I st → Breaks t →
    ∃ st', f.fill st (m.2 ++ t) = .ok (st', t) ∧ I st' ∧
      ∀ g ∈ fields, g.isFilled st' = true ↔ g.name = m.1 ∨ g.isFilled st = true

theorem find?_name (hnodup : (fields.map RecordField.name).Nodup) {f : RecordField σ}
    (hf : f ∈ fields) : fields.find? (fun g => g.name = f.name) = some f := by
  obtain ⟨g, hg⟩ : ∃ g, fields.find? (fun g => g.name = f.name) = some g :=
    Option.isSome_iff_exists.1 (List.find?_isSome.2 ⟨f, hf, by simp⟩)
  have hname : g.name = f.name := by simpa using List.find?_some hg
  rw [hg, List.inj_on_of_nodup_map hnodup (List.mem_of_find?_eq_some hg) hf hname]

/-- Reading one member: its field is filled if it has one, and else nothing changes. What is left
may differ from `t` by blanks. -/
theorem decodeMember_of_takes (hnodup : (fields.map RecordField.name).Nodup)
    (htakes : IsKnown fields m.1 → Takes fields I m)
    (hjson : ¬IsKnown fields m.1 → IsJson m.2) {st : σ} (hst : I st) (ht : Breaks t)
    (hnew : ∀ f ∈ fields, f.name = m.1 → f.isFilled st = false) :
    ∃ st' s, decodeMember fields m.1 st (':' :: (m.2 ++ t)) = .ok (st', s) ∧
      skipBlank s = skipBlank t ∧ I st' ∧
      ∀ g ∈ fields, g.isFilled st' = true ↔ g.name = m.1 ∨ g.isFilled st = true := by
  have hcolon : expectChar ':' (':' :: (m.2 ++ t)) = .ok (m.2 ++ t) := expectChar_self rfl
  by_cases hknown : IsKnown fields m.1
  · obtain ⟨f, hf, hname, hfill⟩ := htakes hknown
    obtain ⟨st', hread, hst', hfilled⟩ := hfill hst ht
    refine ⟨st', t, ?_, rfl, hst', hfilled⟩
    have hfind := find?_name hnodup hf
    rw [hname] at hfind
    simp only [decodeMember, hfind, hnew f hf hname, hcolon, hread, Bool.false_eq_true, if_false]
  · obtain ⟨v, s, hread, hs⟩ : ∃ v s,
        readValue false (2 * (m.2 ++ t).length + 2) 0 (m.2 ++ t) = .ok (v, s) ∧
          skipBlank s = skipBlank t :=
      readValue_of_isJson (hjson hknown) ht (by simp only [List.length_append]; omega)
    have hfind : fields.find? (fun f => f.name = m.1) = none := by
      rw [List.find?_eq_none]
      intro f hf hname
      exact hknown ⟨f, hf, of_decide_eq_true hname⟩
    refine ⟨st, s, ?_, hs, hst, fun g hg => ?_⟩
    · simp only [decodeMember, hfind, hcolon, hread]
      rfl
    · have hother : g.name ≠ m.1 := fun hname => hknown ⟨g, hg, hname⟩
      simp [hother]

/-- From the state `st`, members fill the fields that are not filled yet, each once. A member of any
other name has a JSON value. -/
structure Completes (fields : List (RecordField σ)) (I : σ → Prop)
    (members : List (String × List Char)) (st : σ) : Prop where
  takes : ∀ m ∈ members, IsKnown fields m.1 → Takes fields I m
  json : ∀ m ∈ members, ¬IsKnown fields m.1 → IsJson m.2
  fresh : ∀ f ∈ fields, f.name ∈ members.map Prod.fst → f.isFilled st = false
  once : ∀ f ∈ fields, (members.map Prod.fst).count f.name ≤ 1
  all : ∀ f ∈ fields, f.name ∈ members.map Prod.fst ∨ f.isFilled st = true

/-- The other members complete what the first one was read into. -/
theorem Completes.tail {members : List (String × List Char)} {st st' : σ}
    (h : Completes fields I (m :: members) st)
    (hfilled : ∀ g ∈ fields, g.isFilled st' = true ↔ g.name = m.1 ∨ g.isFilled st = true) :
    Completes fields I members st' where
  takes m' hm' := h.takes m' (List.mem_cons_of_mem _ hm')
  json m' hm' := h.json m' (List.mem_cons_of_mem _ hm')
  fresh f hf hmem := by
    rw [← Bool.not_eq_true, hfilled f hf, h.fresh f hf (List.mem_cons_of_mem _ hmem)]
    rintro (hname | hfalse)
    · have honce := h.once f hf
      rw [List.map_cons, ← hname, List.count_cons_self] at honce
      have := List.count_pos_iff.2 hmem
      omega
    · cases hfalse
  once f hf := Nat.le_trans List.count_le_count_cons (h.once f hf)
  all f hf := by
    have hall := h.all f hf
    rw [List.map_cons, List.mem_cons] at hall
    rw [hfilled f hf]
    tauto

/-- Members that complete a record are read. The text `s` may differ from theirs by blanks. -/
theorem decodeMembers_of_completes (hnodup : (fields.map RecordField.name).Nodup)
    {members : List (String × List Char)} {st : σ} (h : Completes fields I members st) (hst : I st)
    {fuel : Nat} (hfuel : members.length < fuel) (isFirst : Bool)
    (hs : skipBlank s = skipBlank (listed isFirst (members.map memberText) ++ '\x7d' :: t)) :
    ∃ st', decodeMembers fields fuel isFirst st s = .ok (st', t) ∧ I st' ∧
      ∀ f ∈ fields, f.isFilled st' = true := by
  -- What is left of the text is only known up to blanks, as a value that is passed over may leave
  -- some behind.
  induction members generalizing st fuel isFirst s with
  | nil =>
    obtain ⟨fuel, rfl⟩ := Nat.exists_eq_add_of_le' (Nat.one_le_of_lt hfuel)
    have hfilled : ∀ f ∈ fields, f.isFilled st = true := by simpa using h.all
    have hnext : nextItem '\x7d' isFirst s = .ok none :=
      (nextItem_congr hs).trans (nextItem_close rfl)
    have hexpect : expectChar '\x7d' s = .ok t := (expectChar_congr hs).trans (expectChar_self rfl)
    refine ⟨st, ?_, hst, hfilled⟩
    simp only [decodeMembers, hnext, List.all_eq_true.2 hfilled, if_true, hexpect]
    rfl
  | cons m members ih =>
    obtain ⟨fuel, rfl⟩ := Nat.exists_eq_add_of_le' (Nat.one_le_of_lt hfuel)
    have hnext : nextItem '\x7d' isFirst s = .ok (some (memberText m ++
        (listed false (members.map memberText) ++ '\x7d' :: t))) :=
      (nextItem_congr hs).trans (nextItem_listed (by decide) (opens_memberText m))
    have htext : memberText m ++ (listed false (members.map memberText) ++ '\x7d' :: t) =
        '"' :: (m.1.toList.flatMap escapeChar ++ '"' ::
          (':' :: (m.2 ++ (listed false (members.map memberText) ++ '\x7d' :: t)))) := by
      simp [memberText, renderText]
    rw [htext] at hnext
    have hbreaks : Breaks (listed false (members.map memberText) ++ '\x7d' :: t) :=
      breaks_listed (breaks_cons.2 (by decide))
    obtain ⟨st', s', hmember, hs', hst', hfilled⟩ := decodeMember_of_takes hnodup
      (h.takes m List.mem_cons_self) (h.json m List.mem_cons_self) hst hbreaks
      (fun f hf hname => h.fresh f hf (hname ▸ List.mem_cons_self))
    obtain ⟨st'', hread, hst'', hall⟩ :=
      ih (h.tail hfilled) hst' (Nat.lt_of_succ_lt_succ hfuel) false hs'
    refine ⟨st'', ?_, hst'', hall⟩
    simp only [decodeMembers, hnext, readText_renderText, String.ofList_toList, hmember, hread]

/-- The text is that of an object with these members in any order, and with any others between
them. -/
def IsRecord (declared : List (String × List Char)) (text : List Char) : Prop :=
  ∃ members, text = objectText members ∧
    (members.filter fun m => declared.any fun d => d.1 = m.1).Perm declared ∧
    ∀ m ∈ members, (∀ d ∈ declared, d.1 ≠ m.1) → IsJson m.2

theorem opens_of_isRecord {declared : List (String × List Char)} (h : IsRecord declared text) :
    Opens ']' text := by
  obtain ⟨members, rfl, -⟩ := h
  exact ⟨'\x7b', _, rfl, by decide, by decide⟩

/-- The members of a record may come in any order. -/
theorem isRecord_of_perm {members declared : List (String × List Char)}
    (h : members.Perm declared) :
    IsRecord declared (objectText members) := by
  have hall : ∀ m ∈ members, ∃ d ∈ declared, d.1 = m.1 := fun m hm => ⟨m, h.subset hm, rfl⟩
  refine ⟨members, rfl, ?_, fun m hm hother => absurd rfl (hother m (h.subset hm))⟩
  rwa [List.filter_eq_self.2 (by simpa using hall)]

/-- The members of a record complete the state in which no field is filled. -/
theorem completes_of_perm {declared members : List (String × List Char)}
    (hnames : declared.map Prod.fst = fields.map RecordField.name)
    (hnodup : (fields.map RecordField.name).Nodup) (htakes : ∀ m ∈ declared, Takes fields I m)
    {st : σ} (hempty : ∀ f ∈ fields, f.isFilled st = false)
    (hperm : (members.filter fun m => declared.any fun d => d.1 = m.1).Perm declared)
    (hjson : ∀ m ∈ members, (∀ d ∈ declared, d.1 ≠ m.1) → IsJson m.2) :
    Completes fields I members st := by
  have hknown (name : String) : IsKnown fields name ↔ ∃ d ∈ declared, d.1 = name := by
    rw [IsKnown, ← List.mem_map, ← hnames, List.mem_map]
  -- The names of the fields are counted among all members, and other members do not count.
  have hcount : ∀ f ∈ fields, (members.map Prod.fst).count f.name = 1 := by
    intro f hf
    have hone := List.count_eq_one_of_mem hnodup (List.mem_map_of_mem (f := RecordField.name) hf)
    rw [← hnames, ← (hperm.map Prod.fst).count_eq] at hone
    rw [← hone]
    simp only [List.count_eq_countP, List.countP_map, List.countP_filter]
    refine List.countP_congr fun m _ => ?_
    have hdeclared := (hknown f.name).1 ⟨f, hf, rfl⟩
    simp only [Function.comp_apply, beq_iff_eq, Bool.and_eq_true, List.any_eq_true,
      decide_eq_true_eq]
    exact ⟨fun hm => ⟨hm, hm ▸ hdeclared⟩, And.left⟩
  constructor
  · intro m hm hm'
    refine htakes m (hperm.subset (List.mem_filter.2 ⟨hm, ?_⟩))
    simpa using (hknown m.1).1 hm'
  · exact fun m hm hm' => hjson m hm fun d hd hname => hm' ((hknown m.1).2 ⟨d, hd, hname⟩)
  · exact fun f hf _ => hempty f hf
  · exact fun f hf => Nat.le_of_eq (hcount f hf)
  · exact fun f hf => .inl (List.count_pos_iff.1 (by rw [hcount f hf]; exact Nat.one_pos))

/-- **A record is decoded from its members**, in whatever order they come and whatever else is
given. -/
theorem decodeRecord_of_isRecord {declared : List (String × List Char)}
    (htakes : ∀ m ∈ declared, Takes fields I m)
    (hnames : declared.map Prod.fst = fields.map RecordField.name)
    (hnodup : (fields.map RecordField.name).Nodup) (st : σ) (hst : I st)
    (hempty : ∀ f ∈ fields, f.isFilled st = false)
    (h : IsRecord declared text) (t : List Char) :
    ∃ st', decodeRecord fields st (text ++ t) = .ok (st', t) ∧ I st' ∧
      ∀ f ∈ fields, f.isFilled st' = true := by
  obtain ⟨members, rfl, hperm, hjson⟩ := h
  have hskip : skipBlank (objectText members ++ t) =
      '\x7b' :: (listed true (members.map memberText) ++ '\x7d' :: t) := by
    rw [objectText, intercalate_eq_listed, List.cons_append, List.cons_append, List.append_assoc]
    exact skipBlank_cons rfl
  have hfuel : members.length <
      (listed true (members.map memberText) ++ '\x7d' :: t).length + 1 := by
    have hle : (members.map memberText).length ≤ (listed true (members.map memberText)).length :=
      length_le_length_listed (List.forall_mem_map.2 fun m _ => opens_memberText m)
    simp only [List.length_append, List.length_map] at hle ⊢
    omega
  obtain ⟨st', hread, hst', hfilled⟩ := decodeMembers_of_completes (t := t) hnodup
    (completes_of_perm hnames hnodup htakes hempty hperm hjson) hst hfuel true rfl
  refine ⟨st', ?_, hst', hfilled⟩
  simp only [decodeRecord, hskip, hread]

/-! ### What is rendered -/

theorem renderItems_eq (vs : List Json) :
    renderItems vs = [','].intercalate (vs.map render) := by
  match vs with
  | [] => rfl
  | [v] => simp [renderItems]
  | v :: v' :: vs =>
    have ih := renderItems_eq (v' :: vs)
    simp only [List.map_cons] at ih ⊢
    rw [renderItems, ih, List.intercalate_cons_cons, List.append_assoc]
    rfl

theorem renderMembers_eq (ms : List (String × Json)) :
    renderMembers ms = [','].intercalate (ms.map fun m => memberText (m.1, render m.2)) := by
  match ms with
  | [] => rfl
  | [(k, v)] => simp [renderMembers, memberText]
  | (k, v) :: m :: ms =>
    have ih := renderMembers_eq (m :: ms)
    simp only [List.map_cons] at ih ⊢
    rw [renderMembers, ih, List.intercalate_cons_cons, List.append_assoc (memberText (k, render v))]
    rfl

theorem render_array (vs : List Json) : render (.array vs) = arrayText (vs.map render) := by
  rw [render, renderItems_eq, arrayText]

theorem render_object (ms : List (String × Json)) :
    render (.object ms) = objectText (ms.map fun m => (m.1, render m.2)) := by
  rw [render, renderMembers_eq, objectText, List.map_map]
  rfl

theorem render_ofNat (n : Nat) : (Json.ofNat n).render = Nat.toDigits 10 n := by
  simp [Json.ofNat, render, Numeral.render, Numeral.ofNat]

/-! ### What decoding preserves -/

variable {P : α → Prop} {item : Decoder α} {st st' : σ} {r : List Char} {vs : List α} {fuel : Nat}

theorem forall_of_decodeItems (hitem : ∀ {s v r}, item s = .ok (v, r) → P v)
    (h : decodeItems item fuel isFirst s = .ok (vs, r)) : ∀ v ∈ vs, P v := by
  induction fuel generalizing isFirst s vs with
  | zero => cases h
  | succ fuel ih =>
    rw [decodeItems] at h
    split at h
    · cases h
    · obtain ⟨a, -, ha⟩ := map_eq_ok_iff.1 h
      cases ha
      exact nofun
    · split at h
      · cases h
      · next hv =>
        obtain ⟨a, hrest, ha⟩ := map_eq_ok_iff.1 h
        cases ha
        exact List.forall_mem_cons.2 ⟨hitem hv, ih hrest⟩

theorem forall_of_decodeList (hitem : ∀ {s v r}, item s = .ok (v, r) → P v)
    (h : decodeList item s = .ok (vs, r)) : ∀ v ∈ vs, P v := by
  rw [decodeList] at h
  split at h
  · cases h
  · exact forall_of_decodeItems hitem h
  · cases h

/-- Every field keeps what `I` says of the state. -/
def Preserves (fields : List (RecordField σ)) (I : σ → Prop) : Prop :=
  ∀ f ∈ fields, ∀ {st s st' r}, I st → f.fill st s = .ok (st', r) → I st'

theorem Preserves.decodeInOrder {fields' : List (RecordField σ)} (h : Preserves fields I)
    (hsub : fields' ⊆ fields) (hst : I st)
    (hread : decodeInOrder fields' isFirst st s = .ok (st', r)) : I st' := by
  induction fields' generalizing isFirst st s with
  | nil =>
    obtain ⟨a, -, ha⟩ := map_eq_ok_iff.1 hread
    cases ha
    exact hst
  | cons f fields' ih =>
    rw [Json.decodeInOrder] at hread
    split at hread
    · cases hread
    · cases hread
    · split at hread
      · cases hread
      · next hfill =>
        exact ih (fun g hg => hsub (List.mem_cons_of_mem _ hg))
          (h f (hsub List.mem_cons_self) hst hfill) hread

theorem Preserves.decodeMember (h : Preserves fields I) {name : String} (hst : I st)
    (hread : decodeMember fields name st s = .ok (st', r)) : I st' := by
  rw [Json.decodeMember] at hread
  split at hread
  · next f hf =>
    split at hread
    · cases hread
    · split at hread
      · cases hread
      · exact h f (List.mem_of_find?_eq_some hf) hst hread
  · split at hread
    · cases hread
    · obtain ⟨a, -, ha⟩ := map_eq_ok_iff.1 hread
      cases ha
      exact hst

theorem Preserves.decodeMembers (h : Preserves fields I) (hst : I st)
    (hread : decodeMembers fields fuel isFirst st s = .ok (st', r)) : I st' := by
  induction fuel generalizing isFirst st s with
  | zero => cases hread
  | succ fuel ih =>
    rw [Json.decodeMembers] at hread
    split at hread
    · cases hread
    · split at hread
      · obtain ⟨a, -, ha⟩ := map_eq_ok_iff.1 hread
        cases ha
        exact hst
      · cases hread
    · split at hread
      · cases hread
      · split at hread
        · cases hread
        · next hmember => exact ih (h.decodeMember hst hmember) hread
    · cases hread

/-- What every field keeps holds of a record however it is written. -/
theorem Preserves.decodeRecord (h : Preserves fields I)
    (hread : decodeRecord fields st s = .ok (st', r)) (hst : I st) : I st' := by
  rw [Json.decodeRecord] at hread
  split at hread
  · cases hread
  · exact h.decodeInOrder (List.Subset.refl _) hst hread
  · exact h.decodeMembers hst hread
  · cases hread

end Json

end WorkspaceWatch
