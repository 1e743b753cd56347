import WorkspaceWatch.Proofs.Number.Digits
import WorkspaceWatch.Proofs.Toml.Quoted
import WorkspaceWatch.Settings.Toml

/-!
# Values and lines are read back

`Spells` says that a text is read as a value where the line ends after it. What the settings are
written with spells what it stands for: strings, arrays of strings in either layout, natural
numbers and flags. A line with such a value is read as an entry, and a text made of lines lists
their entries (`Lists`), from which the document is made (`parse_of_lists`).
-/

namespace WorkspaceWatch

namespace Toml

variable {s s' t rest : List Char} {c : Char} {n fuel depth : Nat}

/-! ### Blanks and line ends -/

/-- The character begins neither blanks nor a comment nor a line end. -/
def IsSolid (c : Char) : Prop := c ≠ ' ' ∧ c ≠ '\t' ∧ c ≠ '#' ∧ c ≠ '\n' ∧ c ≠ '\r'

instance : DecidablePred IsSolid := fun c =>
  inferInstanceAs (Decidable (c ≠ ' ' ∧ c ≠ '\t' ∧ c ≠ '#' ∧ c ≠ '\n' ∧ c ≠ '\r'))

theorem isSolid_of_isBare (hc : isBare c = true) : IsSolid c := by
  refine ⟨?_, ?_, ?_, ?_, ?_⟩
  all_goals
    rintro rfl
    cases hc

theorem skipBlank_of_isSolid (hc : IsSolid c) : Quoted.skipBlank (c :: s) = c :: s :=
  List.dropWhile_cons_of_neg (by simp [hc.1, hc.2.1])

theorem skipBlank_blank : Quoted.skipBlank (' ' :: s) = Quoted.skipBlank s := rfl

theorem skipComment_of_isSolid (hc : IsSolid c) : skipComment (c :: s) = c :: s := by
  rw [skipComment.eq_def]
  split
  · next heq => exact absurd (List.cons.inj heq).1 hc.2.2.1
  · rfl

theorem skipFiller_of_isSolid (hc : IsSolid c) : skipFiller (c :: s) = c :: s := by
  rw [skipFiller, skipBlank_of_isSolid hc, skipComment_of_isSolid hc]
  split
  · next heq =>
    rw [Quoted.afterLineEnd?_cons hc.2.2.2] at heq
    cases heq
  · rfl

theorem skipFiller_nil : skipFiller [] = [] := by
  rw [skipFiller]
  rfl

theorem skipFiller_blank : skipFiller (' ' :: s) = skipFiller s := by
  rw [skipFiller, skipFiller, skipBlank_blank]

theorem skipFiller_feed : skipFiller ('\n' :: s) = skipFiller s := by
  have h : skipComment (Quoted.skipBlank ('\n' :: s)) = '\n' :: s := rfl
  rw [skipFiller]
  split
  · next heq =>
    rw [h] at heq
    cases heq
    rfl
  · next heq =>
    rw [h] at heq
    cases heq

theorem endOfLine_feed : endOfLine ('\n' :: s) = .ok s := rfl

/-! ### Values -/

/-- The text is read as the value, up to the end of the line, and no blanks are at its front. -/
structure Spells (w : List Char) (v : Toml) : Prop where
  solid : ∀ c ∈ w.head?, IsSolid c
  read : ∀ fuel rest, 2 * w.length < fuel →
    readValue fuel (depthLimit - 1) (w ++ '\n' :: rest) = .ok (v, '\n' :: rest)

/-- A string is read back before anything that is no mark. -/
theorem readValue_write (s : List Char) (hrest : rest.head? ≠ some '"' ∧ rest.head? ≠ some '\'') :
    readValue (fuel + 1) depth (Quoted.write s ++ rest) = .ok (.text (String.ofList s), rest) := by
  obtain ⟨mark, w, hmark, hw, hread⟩ := Quoted.read_write s hrest
  rw [hw, List.cons_append]
  obtain rfl | rfl := hmark
  · simp only [readValue, hread]
    rfl
  · simp only [readValue, hread]
    rfl

/-- A string begins with a mark. -/
theorem exists_write_eq_cons (s : List Char) :
    ∃ mark w, Quoted.write s = mark :: w ∧ IsSolid mark := by
  obtain ⟨mark, w, hmark, hw, -⟩ := @Quoted.read_write [] s (by simp)
  refine ⟨mark, w, hw, ?_⟩
  obtain rfl | rfl := hmark <;> decide

/-- **A string is read back.** -/
theorem spells_write (s : String) : Spells (Quoted.write s.toList) (.text s) where
  solid := by
    obtain ⟨mark, w, hw, hsolid⟩ := exists_write_eq_cons s.toList
    rw [hw]
    exact fun c hc => Option.some.inj hc ▸ hsolid
  read fuel rest hfuel := by
    obtain ⟨fuel, rfl⟩ := Nat.exists_eq_add_of_le' (Nat.one_le_of_lt hfuel)
    rw [readValue_write s.toList (by simp), String.ofList_toList]

theorem skipFiller_write : skipFiller (Quoted.write s ++ rest) = Quoted.write s ++ rest := by
  obtain ⟨mark, w, hw, hsolid⟩ := exists_write_eq_cons s
  rw [hw, List.cons_append, skipFiller_of_isSolid hsolid]

/-- The lines of the items of an array, and its closing bracket. -/
def itemLines (ss : List String) : List Char :=
  ss.flatMap (fun s => [' ', ' ', ' ', ' '] ++ Quoted.write s.toList ++ [',', '\n']) ++ [']']

/-- A string as an item of an array. -/
theorem readItems_write (fuel depth : Nat) (s : List Char)
    (hskip : skipFiller t = Quoted.write s ++ rest)
    (hrest : rest.head? ≠ some '"' ∧ rest.head? ≠ some '\'') :
    readItems (fuel + 2) depth t =
      match skipFiller rest with
      | ',' :: s' =>
        (readItems (fuel + 1) depth s').map fun r => (.text (String.ofList s) :: r.1, r.2)
      | ']' :: s' => .ok ([.text (String.ofList s)], s')
      | _ => .error .malformed := by
  have hvalue : readValue (fuel + 1) depth (Quoted.write s ++ rest) =
      .ok (.text (String.ofList s), rest) := readValue_write s hrest
  rw [readItems, hskip]
  split
  · next heq =>
    obtain ⟨mark, w, hmark, hw, -⟩ := @Quoted.read_write [] s (by simp)
    rw [hw] at heq
    obtain rfl | rfl := hmark <;> cases (List.cons.inj heq).1
  · exact hvalue ▸ rfl

/-- The items of an array are read back, each from a line of its own. -/
theorem readItems_itemLines (ss : List String) (hfuel : ss.length + 2 ≤ fuel) :
    readItems fuel depth ('\n' :: (itemLines ss ++ rest)) = .ok (ss.map .text, rest) := by
  induction ss generalizing fuel with
  | nil =>
    obtain ⟨fuel, rfl⟩ := Nat.exists_eq_add_of_le' hfuel
    have hskip : skipFiller ('\n' :: (itemLines [] ++ rest)) = ']' :: rest :=
      skipFiller_feed.trans (skipFiller_of_isSolid (by decide))
    simp only [readItems, hskip]
    rfl
  | cons s ss ih =>
    rw [List.length_cons] at hfuel
    obtain ⟨fuel, rfl⟩ := Nat.exists_eq_add_of_le' (Nat.le_of_add_left_le hfuel)
    have htext : itemLines (s :: ss) ++ rest = ' ' :: ' ' :: ' ' :: ' ' ::
        (Quoted.write s.toList ++ ',' :: '\n' :: (itemLines ss ++ rest)) := by
      simp [itemLines]
    have hskip : skipFiller ('\n' :: (itemLines (s :: ss) ++ rest)) =
        Quoted.write s.toList ++ ',' :: '\n' :: (itemLines ss ++ rest) := by
      rw [htext, skipFiller_feed, skipFiller_blank, skipFiller_blank, skipFiller_blank,
        skipFiller_blank, skipFiller_write]
    have hcomma {x : List Char} : skipFiller (',' :: x) = ',' :: x :=
      skipFiller_of_isSolid (by decide)
    have hitem := readItems_write fuel depth s.toList hskip (by simp)
    have hitems := ih (show ss.length + 2 ≤ fuel + 1 by omega)
    simp only [hcomma, hitems, String.ofList_toList] at hitem
    exact hitem

theorem length_le_length_itemLines (ss : List String) : ss.length ≤ (itemLines ss).length := by
  induction ss with
  | nil => exact Nat.zero_le _
  | cons s ss ih =>
    simp only [itemLines, List.flatMap_cons, List.length_append, List.length_cons] at ih ⊢
    omega

/-- An array is read if its items are. -/
theorem spells_array {w : List Char} {vs : List Toml}
    (h : ∀ fuel rest, 2 * w.length + 1 < fuel →
      readItems fuel (depthLimit - 1 - 1) (w ++ '\n' :: rest) = .ok (vs, '\n' :: rest)) :
    Spells ('[' :: w) (.array vs) where
  solid c hc := Option.some.inj hc ▸ (by decide : IsSolid '[')
  read fuel rest hfuel := by
    rw [List.length_cons] at hfuel
    obtain ⟨fuel, rfl⟩ := Nat.exists_eq_add_of_le' (Nat.one_le_of_lt hfuel)
    have hdepth : ¬depthLimit - 1 = 0 := by decide
    simp only [List.cons_append, readValue, hdepth, if_false, h fuel rest (by omega)]
    rfl

/-- **An array of strings is read back**, in either layout. -/
theorem spells_tomlTexts (ss : List String) :
    Spells (Settings.tomlTexts ss) (.array (ss.map .text)) := by
  have hclose {x : List Char} : skipFiller (']' :: x) = ']' :: x :=
    skipFiller_of_isSolid (by decide)
  match ss with
  | [] =>
    refine spells_array (w := [']']) fun fuel rest hfuel => ?_
    obtain ⟨fuel, rfl⟩ := Nat.exists_eq_add_of_le' (Nat.one_le_of_lt hfuel)
    simp only [List.cons_append, List.nil_append, readItems, hclose]
    rfl
  | [s] =>
    refine spells_array fun fuel rest hfuel => ?_
    obtain ⟨fuel, rfl⟩ : ∃ k, fuel = k + 2 := Nat.exists_eq_add_of_le' (by omega)
    have hskip : skipFiller (Quoted.write s.toList ++ [']'] ++ '\n' :: rest) =
        Quoted.write s.toList ++ ']' :: '\n' :: rest := by
      rw [List.append_assoc]
      exact skipFiller_write
    have hitem := readItems_write fuel (depthLimit - 1 - 1) s.toList hskip (by simp)
    simp only [hclose, String.ofList_toList] at hitem
    exact hitem
  | s :: s' :: ss =>
    refine spells_array (w := '\n' :: itemLines (s :: s' :: ss)) fun fuel rest hfuel => ?_
    have hlength := length_le_length_itemLines (s :: s' :: ss)
    rw [List.length_cons] at hfuel
    exact readItems_itemLines _ (by omega)

/-! ### Numbers and flags -/

/-- Neither a date nor a time begins with digits up to the end of the line: where its first mark
would be there is a digit or the line end, or the line ended before. -/
theorem getElem?_digits {ds : List Char} {k : Nat} {mark : Char} (hall : ∀ c ∈ ds, c.isDigit = true)
    (hmark : mark ≠ '\n' ∧ mark.isDigit = false)
    (htake : ((ds ++ '\n' :: rest).take k).all Char.isDigit = true) :
    (ds ++ '\n' :: rest)[k]? ≠ some mark := by
  intro hk
  rcases Nat.lt_trichotomy k ds.length with hlt | rfl | hgt
  · rw [List.getElem?_append_left hlt] at hk
    rw [hall mark (List.mem_of_getElem? hk)] at hmark
    cases hmark.2
  -- After the digits comes the line end: it is no mark, and no digit on the way to one.
  · rw [List.getElem?_append_right (Nat.le_refl _), Nat.sub_self] at hk
    exact hmark.1 (Option.some.inj hk).symm
  · obtain ⟨j, hj⟩ := Nat.exists_eq_add_of_lt hgt
    have hsub : k - ds.length = j + 1 := by omega
    rw [List.take_append, hsub, List.take_succ_cons] at htake
    simp at htake

theorem startsDate_digits {ds : List Char} (hall : ∀ c ∈ ds, c.isDigit = true) :
    startsDate (ds ++ '\n' :: rest) = false := by
  refine Bool.eq_false_iff.2 fun h => ?_
  simp only [startsDate, Bool.and_eq_true, decide_eq_true_eq] at h
  exact getElem?_digits hall (by decide) h.1 h.2

theorem startsTime_digits {ds : List Char} (hall : ∀ c ∈ ds, c.isDigit = true) :
    startsTime .document (ds ++ '\n' :: rest) = false := by
  refine Bool.eq_false_iff.2 fun h => ?_
  simp only [startsTime, Bool.and_eq_true, decide_eq_true_eq] at h
  exact getElem?_digits hall (by decide) h.1.1 h.1.2

theorem moreDigits_append {ds : List Char} (hall : ∀ c ∈ ds, c.isDigit = true) :
    moreDigits Char.isDigit (ds ++ '\n' :: rest) = .ok (ds, '\n' :: rest) := by
  induction ds with
  | nil => rfl
  | cons d ds ih =>
    obtain ⟨hd, hds⟩ := List.forall_mem_cons.1 hall
    rw [List.cons_append, moreDigits, if_pos hd, ih hds]
    · rfl
    · rintro rfl
      cases hd
    · rintro _ _ rfl
      cases hd

/-- The digits of a number are cut off as a whole. -/
theorem wholeDigits_toDigits (n : Nat) :
    wholeDigits (Nat.toDigits 10 n ++ '\n' :: rest) = .ok (Nat.toDigits 10 n, '\n' :: rest) := by
  have hall : ∀ c ∈ Nat.toDigits 10 n, c.isDigit = true := fun _ => Numeral.isDigit_of_mem
  by_cases hzero : (Nat.toDigits 10 n).head? = some '0'
  · rw [Numeral.toDigits_eq_of_head hzero]
    rfl
  · obtain ⟨d, ds, hds, hd⟩ := Numeral.exists_toDigits_eq_cons n
    rw [hds] at hall hzero ⊢
    have htail := (List.forall_mem_cons.1 hall).2
    rw [List.cons_append, wholeDigits, someDigits, if_pos hd, moreDigits_append htail]
    · rfl
    · rintro _ heq
      exact hzero (by rw [(List.cons.inj heq).1]; rfl)

theorem readDecimal_toDigits (hn : n < twoTo 63) :
    readDecimal false (Nat.toDigits 10 n ++ '\n' :: rest) = .ok (.integer n, '\n' :: rest) := by
  simp [readDecimal, wholeDigits_toDigits, readPower, integer?, Numeral.digitsValue_toDigits, hn,
    bind, Except.bind, pure, Except.pure]

theorem readNumber_toDigits (hn : n < twoTo 63) (rest : List Char) :
    readNumber false (Nat.toDigits 10 n ++ '\n' :: rest) = .ok (.integer n, '\n' :: rest) := by
  obtain ⟨d, ds, hds, hd⟩ := Numeral.exists_toDigits_eq_cons n
  rw [readNumber.eq_def]
  split
  · next heq =>
    rw [hds] at heq
    cases (List.cons.inj heq).1
    cases hd
  · next heq =>
    rw [hds] at heq
    cases (List.cons.inj heq).1
    cases hd
  · exact readDecimal_toDigits hn

/-- A natural number is read as a scalar: it is no date and no time, and announces no other base. -/
theorem readScalar_toDigits (hn : n < twoTo 63) (rest : List Char) :
    readScalar (Nat.toDigits 10 n ++ '\n' :: rest) = .ok (.integer n, '\n' :: rest) := by
  have hall : ∀ c ∈ Nat.toDigits 10 n, c.isDigit = true := fun _ => Numeral.isDigit_of_mem
  have hmoment : ¬(startsDate (Nat.toDigits 10 n ++ '\n' :: rest) ||
      startsTime .document (Nat.toDigits 10 n ++ '\n' :: rest)) = true := by
    simp [startsDate_digits hall, startsTime_digits hall]
  have hnumber := readNumber_toDigits hn rest
  rw [readScalar.eq_def, if_neg hmoment]
  -- What begins with a zero is zero, so no letter after it announces another base.
  by_cases hzero : (Nat.toDigits 10 n).head? = some '0'
  · rw [Numeral.toDigits_eq_of_head hzero] at hnumber ⊢
    exact hnumber
  · obtain ⟨d, ds, hds, hdigit⟩ := Numeral.exists_toDigits_eq_cons n
    rw [hds] at hall hzero hnumber ⊢
    have hd : d.isDigit = true ∧ d ≠ '0' := ⟨hdigit, fun h => hzero (by rw [h]; rfl)⟩
    rw [List.cons_append] at hnumber ⊢
    split
    case h_8 => exact hnumber
    all_goals
      next heq =>
        rw [(List.cons.inj heq).1] at hd
        exact absurd hd (by decide)

/-- What begins with a digit is a scalar. -/
theorem readValue_of_isDigit {d : Char} (hd : d.isDigit = true) :
    readValue (fuel + 1) depth (d :: s) = readScalar (d :: s) := by
  rw [readValue]
  all_goals
    rintro _ heq
    cases (List.cons.inj heq).1
    cases hd

/-- **A natural number is read back.** -/
theorem spells_toDigits (hn : n < twoTo 63) : Spells (Nat.toDigits 10 n) (.integer n) := by
  obtain ⟨d, ds, hds, hd⟩ := Numeral.exists_toDigits_eq_cons n
  refine ⟨?_, fun fuel rest hfuel => ?_⟩
  · rw [hds]
    exact fun c hc => Option.some.inj hc ▸ isSolid_of_isBare (by simp [isBare, Char.isAlphanum, hd])
  · obtain ⟨fuel, rfl⟩ := Nat.exists_eq_add_of_le' (Nat.one_le_of_lt hfuel)
    have hscalar := readScalar_toDigits hn rest
    rw [hds] at hscalar ⊢
    rw [List.cons_append, readValue_of_isDigit hd]
    exact hscalar

/-- **A flag is read back.** -/
theorem spells_tomlFlag (b : Bool) : Spells (Settings.tomlFlag b) (.boolean b) where
  solid c hc := by
    cases b with
    | false => exact Option.some.inj hc ▸ (by decide : IsSolid 'f')
    | true => exact Option.some.inj hc ▸ (by decide : IsSolid 't')
  read fuel rest hfuel := by
    obtain ⟨fuel, rfl⟩ := Nat.exists_eq_add_of_le' (Nat.one_le_of_lt hfuel)
    cases b <;> rfl

/-! ### Lines -/

/-- The name can be written without marks: it is not empty and all its characters are bare. -/
def isBareName : List Char → Bool
  | [] => false
  | c :: name => (c :: name).all isBare

theorem exists_cons_of_isBareName {name : List Char} (hname : isBareName name = true) :
    ∃ d ds, name = d :: ds ∧ isBare d = true ∧ ∀ c ∈ name, isBare c = true := by
  cases name with
  | nil => cases hname
  | cons d ds =>
    have hall := List.all_eq_true.1 hname
    exact ⟨d, ds, rfl, hall d List.mem_cons_self, hall⟩

/-- A name without marks is read up to the first other character. -/
theorem readName_bare {name : List Char} (hname : isBareName name = true) (hc : isBare c = false)
    (rest : List Char) :
    readName (name ++ c :: rest) = .ok (String.ofList name, c :: rest) := by
  obtain ⟨d, ds, hds, hd, hbare⟩ := exists_cons_of_isBareName hname
  have htake : (name ++ c :: rest).takeWhile isBare = name := by
    rw [List.takeWhile_append_of_pos hbare, List.takeWhile_cons_of_neg (by simp [hc]),
      List.append_nil]
  have hdrop : (name ++ c :: rest).dropWhile isBare = c :: rest := by
    rw [List.dropWhile_append_of_pos hbare, List.dropWhile_cons_of_neg (by simp [hc])]
  subst hds
  rw [readName.eq_def]
  split
  case h_3 =>
    rw [htake, hdrop]
  all_goals
    next heq =>
      rw [(List.cons.inj heq).1] at hd
      cases hd

/-- A key of one name without marks is read, and the blanks after it. -/
theorem readKey_bare {name : List Char} (hname : isBareName name = true) (hc : isBare c = false)
    (hskip : Quoted.skipBlank (c :: rest) = s) (hdot : s.head? ≠ some '.') :
    readKey (name ++ c :: rest) = .ok ([String.ofList name], s) := by
  have hstart : Quoted.skipBlank (name ++ c :: rest) = name ++ c :: rest := by
    obtain ⟨d, ds, rfl, hd, -⟩ := exists_cons_of_isBareName hname
    exact skipBlank_of_isSolid (isSolid_of_isBare hd)
  rw [readKey, depthLimit, readNames, hstart, readName_bare hname hc]
  dsimp only
  rw [hskip]
  split
  · exact absurd rfl hdot
  · rfl

/-- A line that gives a name a value is read back. -/
theorem readEntry_tomlLine {name : String} {w : List Char} {v : Toml}
    (hname : isBareName name.toList = true) (h : Spells w v) :
    readEntry (Settings.tomlLine name w ++ rest) = .ok (.pair [name] v, rest) := by
  have htext : Settings.tomlLine name w ++ rest =
      name.toList ++ ' ' :: '=' :: ' ' :: (w ++ '\n' :: rest) := by
    simp [Settings.tomlLine]
  have hkey : readKey (name.toList ++ ' ' :: '=' :: ' ' :: (w ++ '\n' :: rest)) =
      .ok ([name], '=' :: ' ' :: (w ++ '\n' :: rest)) := by
    have hskip : Quoted.skipBlank (' ' :: '=' :: ' ' :: (w ++ '\n' :: rest)) =
        '=' :: ' ' :: (w ++ '\n' :: rest) := rfl
    rw [readKey_bare hname rfl hskip (by simp), String.ofList_toList]
  have hskip : Quoted.skipBlank (' ' :: (w ++ '\n' :: rest)) = w ++ '\n' :: rest := by
    rw [skipBlank_blank]
    cases w with
    | nil => rfl
    | cons c w => exact skipBlank_of_isSolid (h.solid c rfl)
  have hvalue := h.read (2 * (' ' :: (w ++ '\n' :: rest)).length + 2) rest (by simp; omega)
  obtain ⟨d, ds, hds, hd, -⟩ := exists_cons_of_isBareName hname
  rw [htext, readEntry.eq_def]
  split
  case h_3 => simp only [hkey, hskip, hvalue, endOfLine_feed, bind, Except.bind, pure, Except.pure]
  all_goals
    next heq =>
      rw [hds] at heq
      rw [(List.cons.inj heq).1] at hd
      cases hd

/-- A line that opens a table is read back. -/
theorem readEntry_header {name : String} (hname : isBareName name.toList = true) :
    readEntry ('[' :: (name.toList ++ ']' :: '\n' :: rest)) = .ok (.table [name], rest) := by
  have hkey : readKey (name.toList ++ ']' :: '\n' :: rest) = .ok ([name], ']' :: '\n' :: rest) := by
    have hskip : Quoted.skipBlank (']' :: '\n' :: rest) = ']' :: '\n' :: rest := rfl
    rw [readKey_bare hname rfl hskip (by simp), String.ofList_toList]
  obtain ⟨d, ds, hds, hd, -⟩ := exists_cons_of_isBareName hname
  rw [readEntry.eq_def]
  split
  case h_1 heq =>
    rw [hds] at heq
    rw [(List.cons.inj (List.cons.inj heq).2).1] at hd
    cases hd
  case h_2 heq =>
    obtain ⟨-, rfl⟩ := List.cons.inj heq
    simp only [hkey, endOfLine_feed, bind, Except.bind, pure, Except.pure]
  case h_3 hno => exact absurd rfl (hno _)

/-! ### Documents -/

/-- The entries of a text, in order. -/
def Lists (s : List Char) (entries : List Entry) : Prop :=
  ∀ fuel, s.length < fuel → readEntriesWithin fuel s = .ok entries

namespace Lists

variable {entry : Entry} {entries : List Entry}

theorem nil : Lists [] [] := by
  intro fuel hfuel
  obtain ⟨fuel, rfl⟩ := Nat.exists_eq_add_of_le' (Nat.one_le_of_lt hfuel)
  simp only [readEntriesWithin, skipFiller_nil]

/-- An empty line lists nothing. -/
theorem feed (h : Lists s entries) : Lists ('\n' :: s) entries := by
  intro fuel hfuel
  obtain ⟨fuel, rfl⟩ := Nat.exists_eq_add_of_le' (Nat.one_le_of_lt hfuel)
  have hread := h (fuel + 1) (Nat.lt_of_succ_lt hfuel)
  rw [readEntriesWithin, skipFiller_feed]
  rwa [readEntriesWithin] at hread

/-- One entry more, at the front. -/
theorem cons (hsolid : ∃ c, s.head? = some c ∧ IsSolid c) (hentry : readEntry s = .ok (entry, rest))
    (hlength : rest.length < s.length) (h : Lists rest entries) : Lists s (entry :: entries) := by
  intro fuel hfuel
  obtain ⟨c, hhead, hc⟩ := hsolid
  obtain ⟨t, rfl⟩ := List.head?_eq_some_iff.1 hhead
  obtain ⟨fuel, rfl⟩ := Nat.exists_eq_add_of_le' (Nat.one_le_of_lt hfuel)
  simp only [readEntriesWithin, skipFiller_of_isSolid hc, hentry, h fuel (by omega)]
  rfl

/-- One line more that gives a name a value. -/
theorem line (name : String) {w : List Char} {v : Toml} (hname : isBareName name.toList = true)
    (hvalue : Spells w v) (h : Lists rest entries) :
    Lists (Settings.tomlLine name w ++ rest) (.pair [name] v :: entries) := by
  obtain ⟨d, ds, hds, hd, -⟩ := exists_cons_of_isBareName hname
  refine cons ⟨d, ?_, isSolid_of_isBare hd⟩ (readEntry_tomlLine hname hvalue) ?_ h
  · simp [Settings.tomlLine, hds]
  · simp [Settings.tomlLine]
    omega

/-- One line more that opens a table. -/
theorem header (name : String) (hname : isBareName name.toList = true)
    (h : Lists rest entries) :
    Lists ('[' :: (name.toList ++ ']' :: '\n' :: rest)) (.table [name] :: entries) := by
  refine cons ⟨'[', rfl, by decide⟩ (readEntry_header hname) ?_ h
  simp
  omega

end Lists

/-- A text is the document that its entries make. -/
theorem parse_of_lists {entries : List Entry} {draft : Draft} (hmark : s.head? ≠ some '\uFEFF')
    (h : Lists s entries) (hdraft : entries.foldlM Draft.add {} = .ok draft) :
    parse (String.ofList s) = .ok (.table (toMembers draft.root)) := by
  have hentries : readEntries s = .ok entries := by
    rw [readEntries]
    · exact h _ (Nat.lt_succ_self _)
    · rintro _ rfl
      exact hmark rfl
  rw [parse, String.toList_ofList, hentries]
  dsimp only [bind, Except.bind]
  rw [hdraft]
  rfl

end Toml

end WorkspaceWatch
