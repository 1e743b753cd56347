import WorkspaceWatch.Layer.Source

/-!
# Where values are put

A value that is put into a table is found under its name in lower case, whatever was there before,
unless it is a table itself. So of the values that a table brings along, each is found under its own
name, and the other names keep what they have (`Value.lookup_putAll`).
-/

namespace WorkspaceWatch

/-! ### Lower case -/

theorem isLower_iff {c : Char} : c.isLower = true ↔ 97 ≤ c.val ∧ c.val ≤ 122 := by
  have h : c.isLower = (decide (97 ≤ c.val) && decide (c.val ≤ 122)) := rfl
  rw [h, Bool.and_eq_true, decide_eq_true_eq, decide_eq_true_eq]

/-- A character whose lower case is another character becomes a small letter of ASCII. -/
theorem lowerChar_cases (c : Char) : lowerChar c = c ∨ (lowerChar c).isLower = true := by
  rw [lowerChar]
  split
  · exact .inr rfl
  · by_cases hcapital : 65 ≤ c.val ∧ c.val ≤ 90
    · have hval : c.toLower.val = c.val + 32 := congrArg Char.val (dif_pos hcapital)
      rw [isLower_iff, hval]
      refine .inr ?_
      simp only [UInt32.le_iff_toNat_le, UInt32.toNat_add, UInt32.reduceToNat] at hcapital ⊢
      omega
    · exact .inl (dif_neg hcapital)

theorem lowerChar_of_isLower {c : Char} (h : c.isLower = true) : lowerChar c = c := by
  have hne : c ≠ '\u212a' := by
    rintro rfl
    cases h
  rw [lowerChar, if_neg hne]
  refine dif_neg fun hcapital => ?_
  exact absurd (UInt32.le_trans (isLower_iff.1 h).1 hcapital.2) (by decide)

theorem lowerText_lowerText (s : List Char) : lowerText (lowerText s) = lowerText s := by
  have hchar (c : Char) : lowerChar (lowerChar c) = lowerChar c := by
    rcases lowerChar_cases c with h | h
    · rw [h, h]
    · exact lowerChar_of_isLower h
  simp [lowerText, hchar]

@[simp] theorem lower_lower (s : String) : lower (lower s) = lower s := by
  simp [lower, lowerText_lowerText]

/-- Nothing but small letters is new in lower case. -/
theorem mem_of_mem_lowerText {s : List Char} {c : Char} (hc : c.isLower = false)
    (h : c ∈ lowerText s) : c ∈ s := by
  obtain ⟨d, hd, rfl⟩ := List.mem_map.1 h
  rcases lowerChar_cases d with heq | hlower
  · rwa [heq]
  · rw [hlower] at hc
    cases hc

/-- Where at most one item qualifies, any item that qualifies is the one that is found. -/
theorem find?_eq_some_iff_mem {α : Type} {p : α → Bool} {xs : List α} {x : α}
    (h : xs.Pairwise fun a b => ¬(p a = true ∧ p b = true)) :
    xs.find? p = some x ↔ x ∈ xs ∧ p x = true := by
  induction xs with
  | nil => simp
  | cons a xs ih =>
    obtain ⟨hhead, htail⟩ := List.pairwise_cons.1 h
    rw [List.find?_cons, List.mem_cons]
    split
    · next hp =>
      constructor
      · intro heq
        cases heq
        exact ⟨.inl rfl, hp⟩
      · rintro ⟨rfl | hmem, hx⟩
        · rfl
        · exact absurd ⟨hp, hx⟩ (hhead x hmem)
    · next hp =>
      rw [ih htail]
      constructor
      · exact fun hx => ⟨.inr hx.1, hx.2⟩
      · rintro ⟨rfl | hmem, hx⟩
        · rw [hp] at hx
          cases hx
        · exact ⟨hmem, hx⟩

namespace Layer

/-! ### Keys of one name -/

theorem readSteps_eq_none {fuel : Nat} {c : Char} {s : List Char} (hdot : c ≠ '.')
    (hbracket : c ≠ '[') : Key.readSteps fuel (c :: s) = none := by
  rw [Key.readSteps.eq_def]
  split <;> simp_all

/-- A text without points and brackets is a key of one name. -/
theorem ofText_of_notMem {s : List Char} (hdot : '.' ∉ s) (hbracket : '[' ∉ s) :
    Key.ofText s = ⟨String.ofList (lowerText s), []⟩ := by
  have hrest : ∀ c ∈ (lowerText s).dropWhile Key.isNameChar, c ≠ '.' ∧ c ≠ '[' := by
    intro c hc
    have hmem := (List.dropWhile_sublist _).mem hc
    constructor
    · rintro rfl
      exact hdot (mem_of_mem_lowerText rfl hmem)
    · rintro rfl
      exact hbracket (mem_of_mem_lowerText rfl hmem)
  have hsplit := List.takeWhile_append_dropWhile (p := Key.isNameChar) (l := lowerText s)
  rw [Key.ofText]
  cases hd : (lowerText s).dropWhile Key.isNameChar with
  | nil =>
    rw [hd, List.append_nil] at hsplit
    rw [hsplit, Key.readSteps]
    cases lowerText s <;> rfl
  | cons c t =>
    rw [hd] at hrest
    obtain ⟨hc, hc'⟩ := hrest c List.mem_cons_self
    rw [readSteps_eq_none hc hc']
    cases (lowerText s).takeWhile Key.isNameChar <;> rfl

namespace Value

variable {name k : String} {v root : Value} {ms ns : List (String × Value)}

/-! ### One value -/

theorem put_table : put name (table ms) root =
    table (alter (lower name) (fun old? => putAll ms (old?.getD (table []))) root.members) := by
  rw [put]

theorem put_of_ne_table (hv : ∀ ms, v ≠ table ms) :
    put name v root = table (alter (lower name) (fun _ => v) root.members) := by
  rw [put]
  exact hv

theorem exists_put (name : String) (v root : Value) : ∃ ms, put name v root = table ms := by
  unfold put
  split <;> exact ⟨_, rfl⟩

theorem lookup_put_of_ne (hk : k ≠ lower name) :
    (put name v root).members.lookup k = root.members.lookup k := by
  unfold put
  split <;> rw [members, lookup_alter, if_neg hk]

theorem lookup_put_of_ne_table (hv : ∀ ms, v ≠ table ms) :
    (put name v root).members.lookup (lower name) = some v := by
  rw [put_of_ne_table hv, members, lookup_alter, if_pos rfl]

theorem lookup_put_table : (put name (table ms) root).members.lookup (lower name) =
    some (putAll ms ((root.members.lookup (lower name)).getD (table []))) := by
  rw [put_table, members, lookup_alter, if_pos rfl]

/-! ### Several values -/

/-- The value that has the name, in any letter case. -/
def named (name : String) (ms : List (String × Value)) : Option Value :=
  (ms.find? fun m => lower m.1 = name).map Prod.snd

/-- No two names are the same in lower case. -/
def HasDistinctNames (ms : List (String × Value)) : Prop := (ms.map fun m => lower m.1).Nodup

theorem named_eq_none (h : ∀ m ∈ ms, lower m.1 ≠ k) : named k ms = none := by
  rw [named, List.find?_eq_none.2 (by simpa using h), Option.map_none]

theorem named_cons (m : String × Value) :
    named k (m :: ms) = if lower m.1 = k then some m.2 else named k ms := by
  rw [named, List.find?_cons]
  split <;> simp_all [named]

theorem HasDistinctNames.tail {m : String × Value} (h : HasDistinctNames (m :: ms)) :
    HasDistinctNames ms := (List.nodup_cons.1 h).2

/-- The first of several members with different names is the only one with its name. -/
theorem HasDistinctNames.ne_of_mem {m m' : String × Value} (h : HasDistinctNames (m :: ms))
    (hm : m' ∈ ms) : lower m'.1 ≠ lower m.1 := fun heq =>
  (List.nodup_cons.1 h).1 (List.mem_map.2 ⟨m', hm, heq⟩)

theorem named_eq_some_iff (h : HasDistinctNames ms) :
    named k ms = some v ↔ ∃ m ∈ ms, lower m.1 = k ∧ m.2 = v := by
  have hdistinct : ms.Pairwise fun m m' =>
      ¬(decide (lower m.1 = k) = true ∧ decide (lower m'.1 = k) = true) :=
    (List.pairwise_map.1 h).imp fun hne hboth =>
      hne ((of_decide_eq_true hboth.1).trans (of_decide_eq_true hboth.2).symm)
  simp [named, find?_eq_some_iff_mem hdistinct, and_assoc]

/-- Names that are in lower case already are found as they are. -/
theorem named_eq_lookup (h : ∀ m ∈ ms, lower m.1 = m.1) : named k ms = ms.lookup k := by
  induction ms with
  | nil => rfl
  | cons m ms ih =>
    obtain ⟨hm, hms⟩ := List.forall_mem_cons.1 h
    obtain ⟨name, v⟩ := m
    rw [named_cons, ih hms, hm, List.lookup_cons]
    by_cases hk : name = k
    · simp [hk]
    · simp [hk, beq_eq_false_iff_ne.2 (Ne.symm hk)]

theorem hasDistinctNames_of_nodup (h : ∀ m ∈ ms, lower m.1 = m.1)
    (hnodup : (ms.map Prod.fst).Nodup) : HasDistinctNames ms := by
  rwa [HasDistinctNames, List.map_congr_left h]

theorem exists_putAll (ms ns : List (String × Value)) :
    ∃ ns', putAll ms (table ns) = table ns' := by
  induction ms generalizing ns with
  | nil => exact ⟨ns, by rw [putAll]⟩
  | cons m ms ih =>
    obtain ⟨ns', hns'⟩ := exists_put m.1 m.2 (table ns)
    rw [putAll, hns']
    exact ih ns'

/-- Values that are put into a table are found under their names. -/
theorem lookup_putAll (hnames : HasDistinctNames ms)
    (hplain : ∀ m ∈ ms, lower m.1 = k → ∀ inner, m.2 ≠ table inner) :
    (putAll ms root).members.lookup k = (named k ms).or (root.members.lookup k) := by
  induction ms generalizing root with
  | nil => rw [putAll, named_eq_none (by simp), Option.none_or]
  | cons m ms ih =>
    rw [putAll, ih hnames.tail fun m' hm' => hplain m' (List.mem_cons_of_mem _ hm'), named_cons]
    split
    · next heq =>
      subst heq
      rw [named_eq_none fun m' => hnames.ne_of_mem,
        lookup_put_of_ne_table (hplain m List.mem_cons_self rfl)]
      rfl
    · next hne => rw [lookup_put_of_ne (Ne.symm hne)]

end Value

end Layer

end WorkspaceWatch
