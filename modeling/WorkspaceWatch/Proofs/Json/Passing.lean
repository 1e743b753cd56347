import WorkspaceWatch.Proofs.Json.Parts

/-!
# Passing over values

A record may hold members that nobody asks for. Their values are passed over, which is less strict
than reading them, so that whatever is a value by itself can be passed over within a larger text.

The induction is over the bound of the reader and goes through values, items and members at once
(`PassesOver`): one lemma for each of the three says what the next larger bound adds.

Main statements: `PassesOver.of_le`, `readValue_of_isJson`.
-/

namespace WorkspaceWatch

namespace Json

variable {s s' r t : List Char} {fuel fuel' depth depth' : Nat} {wanted : Bool}

/-! ### Between brackets -/

variable {α : Type} {close : Char} {read read' : List Char → Reading (List α)}

/-- What an array or an object holds: nothing if the closing character comes first, or else what is
read. -/
def readUpTo (close : Char) (read : List Char → Reading (List α)) (s : List Char) :
    Reading (List α) :=
  match skipBlank s with
  | [] => .error .unfinished
  | c :: s => if c = close then .ok ([], s) else read (c :: s)

theorem readUpTo_append {xs : List α}
    (hread : ∀ {s xs r}, read s = .ok (xs, r) → ∃ xs', read' (s ++ t) = .ok (xs', r ++ t))
    (h : readUpTo close read s = .ok (xs, r)) :
    ∃ xs', readUpTo close read' (s ++ t) = .ok (xs', r ++ t) := by
  rw [readUpTo] at h
  split at h
  · cases h
  next c s' hs =>
  rw [readUpTo, skipBlank_append hs]
  dsimp only
  split at h
  · next hclose =>
    cases h
    exact ⟨[], if_pos hclose⟩
  · next hclose =>
    obtain ⟨xs', hxs'⟩ := hread h
    exact ⟨xs', (if_neg hclose).trans hxs'⟩

theorem readValue_array (h : skipBlank s = '[' :: s') : readValue wanted (fuel + 1) depth s =
    if wanted && depth = 0 then .error .malformed
    else (readUpTo ']' (readItems wanted fuel (depth - 1)) s').map fun r => (.array r.1, r.2) := by
  rw [readValue, h, readUpTo]
  refine if_congr Iff.rfl rfl ?_
  cases skipBlank s' with
  | nil => rfl
  | cons c s' =>
    by_cases hc : c = ']'
    · subst hc
      rfl
    · dsimp only
      rw [if_neg hc]
      split
      · next heq => cases heq
      · next heq => exact absurd (List.cons.inj heq).1 hc
      · rfl

theorem readValue_object (h : skipBlank s = '\x7b' :: s') : readValue wanted (fuel + 1) depth s =
    if wanted && depth = 0 then .error .malformed
    else (readUpTo '\x7d' (readMembers wanted fuel (depth - 1)) s').map
      fun r => (.object r.1, r.2) := by
  rw [readValue, h, readUpTo]
  refine if_congr Iff.rfl rfl ?_
  cases skipBlank s' with
  | nil => rfl
  | cons c s' =>
    by_cases hc : c = '\x7d'
    · subst hc
      rfl
    · dsimp only
      rw [if_neg hc]
      split
      · next heq => cases heq
      · next heq => exact absurd (List.cons.inj heq).1 hc
      · rfl

/-! ### The induction -/

/-- What is read as wanted with `fuel` is passed over before `t` with `fuel'`, however deeply it is
nested. -/
structure PassesOver (t : List Char) (fuel fuel' : Nat) : Prop where
  value : ∀ {depth s v r} depth', readValue true fuel depth s = .ok (v, r) →
    ∃ v', readValue false fuel' depth' (s ++ t) = .ok (v', r ++ t)
  items : ∀ {depth s vs r} depth', readItems true fuel depth s = .ok (vs, r) →
    ∃ vs', readItems false fuel' depth' (s ++ t) = .ok (vs', r ++ t)
  members : ∀ {depth s ms r} depth', readMembers true fuel depth s = .ok (ms, r) →
    ∃ ms', readMembers false fuel' depth' (s ++ t) = .ok (ms', r ++ t)

namespace PassesOver

theorem readValue_succ (hpass : PassesOver t fuel fuel') (ht : Breaks t) {v : Json}
    (h : readValue true (fuel + 1) depth s = .ok (v, r)) :
    ∃ v', readValue false (fuel' + 1) depth' (s ++ t) = .ok (v', r ++ t) := by
  -- In an array or an object the text is read with the next smaller bound.
  have hinner {β : Type} {f : β × List Char → Json × List Char} {x : Reading β}
      (h : (if true && depth = 0 then .error .malformed else x.map f) = .ok (v, r)) :
      ∃ b, x = .ok b ∧ f b = (v, r) := by
    split at h
    · cases h
    · exact map_eq_ok_iff.1 h
  have hread := h
  rw [readValue] at h
  split at h
  case h_1 => cases h
  case h_2 heq | h_3 heq | h_4 heq =>
    obtain ⟨a, ha, he⟩ := map_eq_ok_iff.1 h
    cases he
    simp only [readValue, skipBlank_append heq]
    rw [expectWord_append ha]
    exact ⟨_, rfl⟩
  case h_5 heq =>
    obtain ⟨a, ha, he⟩ := map_eq_ok_iff.1 h
    cases he
    obtain ⟨cs', hcs'⟩ := readText_append (t := t) ha
    simp only [readValue, skipBlank_append heq]
    rw [hcs']
    exact ⟨_, rfl⟩
  case h_6 heq =>
    rw [readValue_array heq] at hread
    obtain ⟨a, ha, he⟩ := hinner hread
    cases he
    obtain ⟨vs', hvs'⟩ := readUpTo_append (hpass.items (depth' - 1)) ha
    refine ⟨.array vs', ?_⟩
    rw [readValue_array (skipBlank_append heq), hvs']
    rfl
  case h_7 heq =>
    rw [readValue_object heq] at hread
    obtain ⟨a, ha, he⟩ := hinner hread
    cases he
    obtain ⟨ms', hms'⟩ := readUpTo_append (hpass.members (depth' - 1)) ha
    refine ⟨.object ms', ?_⟩
    rw [readValue_object (skipBlank_append heq), hms']
    rfl
  case h_8 c s h1 h2 h3 h4 h5 h6 heq =>
    split at h
    · next hstart =>
      split at h
      · cases h
      · next n s' hn =>
        split at h
        · cases h
        cases h
        have hn' : readNumeral false (c :: (s ++ t)) = .ok (n, r ++ t) := readNumeral_append ht hn
        refine ⟨.number n, ?_⟩
        rw [readValue, skipBlank_append heq]
        simp only [if_pos hstart, hn', Bool.false_and, Bool.false_eq_true, if_false]
    · cases h

theorem readItems_succ (hpass : PassesOver t fuel fuel') {vs : List Json}
    (h : readItems true (fuel + 1) depth s = .ok (vs, r)) :
    ∃ vs', readItems false (fuel' + 1) depth' (s ++ t) = .ok (vs', r ++ t) := by
  rw [readItems] at h
  split at h
  · cases h
  next v s hv =>
  obtain ⟨v', hv'⟩ := hpass.value depth' hv
  rw [readItems, hv']
  split at h
  · cases h
  · next hs =>
    cases h
    refine ⟨[v'], ?_⟩
    simp only [skipBlank_append hs]
  · next hs =>
    obtain ⟨a, ha, he⟩ := map_eq_ok_iff.1 h
    cases he
    obtain ⟨vs', hvs'⟩ := hpass.items depth' ha
    refine ⟨v' :: vs', ?_⟩
    simp only [skipBlank_append hs, hvs']
    rfl
  · cases h

theorem readMembers_succ (hpass : PassesOver t fuel fuel') {ms : List (String × Json)}
    (h : readMembers true (fuel + 1) depth s = .ok (ms, r)) :
    ∃ ms', readMembers false (fuel' + 1) depth' (s ++ t) = .ok (ms', r ++ t) := by
  rw [readMembers] at h
  split at h
  · cases h
  · next hs₁ =>
    split at h
    · cases h
    next name s₂ hname =>
    split at h
    · cases h
    · next hs₃ =>
      split at h
      · cases h
      next v s₄ hv =>
      obtain ⟨name', hname'⟩ := readText_append (t := t) hname
      obtain ⟨v', hv'⟩ := hpass.value depth' hv
      simp only [readMembers, skipBlank_append hs₁, hname', skipBlank_append hs₃, hv']
      split at h
      · cases h
      · next hs₅ =>
        cases h
        simp only [skipBlank_append hs₅]
        exact ⟨_, rfl⟩
      · next hs₅ =>
        obtain ⟨a, ha, he⟩ := map_eq_ok_iff.1 h
        cases he
        obtain ⟨ms', hms'⟩ := hpass.members depth' ha
        simp only [skipBlank_append hs₅, hms']
        exact ⟨_, rfl⟩
      · cases h
    · cases h
  · cases h

/-- **What makes sense can be passed over**: a value that is read as a wanted one is passed over
wherever it stands, as long as the text that follows does not go on with a number, and what is
left is the same. -/
theorem of_le (ht : Breaks t) (h : fuel ≤ fuel') : PassesOver t fuel fuel' := by
  induction fuel generalizing fuel' with
  | zero =>
    constructor <;> intro depth s _ r _ hread
    · cases hread
    · cases hread
    · cases hread
  | succ fuel ih =>
    obtain ⟨fuel', rfl⟩ := Nat.exists_eq_add_of_le' (Nat.one_le_of_lt h)
    have hpass : PassesOver t fuel fuel' := ih (Nat.le_of_succ_le_succ h)
    exact ⟨fun _ => hpass.readValue_succ ht, fun _ => hpass.readItems_succ,
      fun _ => hpass.readMembers_succ⟩

end PassesOver

/-- The text is that of one value. -/
def IsJson (s : List Char) : Prop := ∃ v, parse (String.ofList s) = .ok v

/-- The text of a value can be passed over, up to blanks after it. -/
theorem readValue_of_isJson (h : IsJson s) (ht : Breaks t) (hfuel : 2 * s.length + 2 ≤ fuel) :
    ∃ v r, readValue false fuel depth (s ++ t) = .ok (v, r) ∧ skipBlank r = skipBlank t := by
  obtain ⟨v, hv⟩ := h
  rw [parse, String.toList_ofList] at hv
  obtain ⟨⟨v, r⟩, hread, h⟩ := exists_of_bind_eq_ok hv
  dsimp only at h
  split at h
  · next hr =>
    obtain ⟨v', hv'⟩ := (PassesOver.of_le ht hfuel).value depth hread
    exact ⟨v', r ++ t, hv', skipBlank_append_of_nil hr⟩
  · cases h

end Json
end WorkspaceWatch
