import WorkspaceWatch.Json.Reader
import WorkspaceWatch.Number.Spelling
import WorkspaceWatch.Proofs.Results

/-!
# Reading the parts of a value

What the readers of words, numbers and strings make of a text does not depend on the text after it.
A number is the exception, as more digits may come, so what follows has to break it off (`Breaks`).

Besides, a part that is read as a wanted one is also read where it is only passed over. The two ways
of reading differ in strings alone: a pair of escapes that spell one character counts as two
characters when it is passed over (`readText_append`).
-/

namespace WorkspaceWatch

namespace Json

/-- The text does not go on with a number that ends before it. -/
def Breaks (t : List Char) : Prop :=
  ∀ c, t.head? = some c → c.isDigit = false ∧ c ≠ '.' ∧ c ≠ 'e' ∧ c ≠ 'E'

variable {s s' t r w ds cs : List Char} {c : Char} {n : Nat} {wanted : Bool}

/-! ### Blanks, words and digits -/

theorem skipBlank_append (h : skipBlank s = c :: s') : skipBlank (s ++ t) = c :: (s' ++ t) := by
  rw [skipBlank] at h ⊢
  rw [List.dropWhile_append, h]
  rfl

theorem skipBlank_append_of_nil (h : skipBlank s = []) : skipBlank (s ++ t) = skipBlank t := by
  rw [skipBlank] at h ⊢
  rw [List.dropWhile_append, h]
  rfl

theorem expectWord_append (h : expectWord w s = .ok r) : expectWord w (s ++ t) = .ok (r ++ t) := by
  induction w generalizing s with
  | nil =>
    cases h
    rfl
  | cons c w ih =>
    cases s with
    | nil => cases h
    | cons d s =>
      rw [expectWord] at h
      split at h
      · next heq =>
        rw [List.cons_append, expectWord, if_pos heq]
        exact ih h
      · cases h

theorem takeWhile_append_of_breaks (ht : Breaks t) :
    (s ++ t).takeWhile Char.isDigit = s.takeWhile Char.isDigit := by
  rw [List.takeWhile_append]
  have hnone : t.takeWhile Char.isDigit = [] := by
    cases t with
    | nil => rfl
    | cons c t => rw [List.takeWhile_cons_of_neg (by simp [(ht c rfl).1])]
  split
  · next hall => rw [hnone, List.append_nil, (List.takeWhile_prefix _).eq_of_length hall]
  · rfl

theorem dropWhile_append_of_breaks (ht : Breaks t) :
    (s ++ t).dropWhile Char.isDigit = s.dropWhile Char.isDigit ++ t := by
  rw [List.dropWhile_append]
  split
  · next hnil =>
    rw [List.isEmpty_iff.1 hnil, List.nil_append]
    cases t with
    | nil => rfl
    | cons c t => exact List.dropWhile_cons_of_neg (by simp [(ht c rfl).1])
  · rfl

theorem digits_append (ht : Breaks t) : digits (s ++ t) = ((digits s).1, (digits s).2 ++ t) := by
  rw [digits, takeWhile_append_of_breaks ht, dropWhile_append_of_breaks ht]
  rfl

/-! ### Numbers -/

theorem readFraction_cons (hc : c ≠ '.') : readFraction wanted (c :: s) = .ok ([], c :: s) := by
  rw [readFraction.eq_def]
  split
  · next heq => exact absurd (List.cons.inj heq).1 hc
  · rfl

theorem readFraction_of_breaks (ht : Breaks t) : readFraction wanted t = .ok ([], t) := by
  cases t with
  | nil => rfl
  | cons c t => exact readFraction_cons (ht c rfl).2.1

theorem readFraction_append (ht : Breaks t) (h : readFraction true s = .ok (ds, r)) :
    readFraction wanted (s ++ t) = .ok (ds, r ++ t) := by
  match s with
  | [] =>
    cases h
    exact readFraction_of_breaks ht
  | c :: s =>
    rw [List.cons_append]
    by_cases hc : c = '.'
    · subst hc
      rw [readFraction, digits_append ht]
      rw [readFraction] at h
      dsimp only at h ⊢
      split at h
      · cases h
      · next hds =>
        rw [if_neg hds]
        cases h
        rfl
    · rw [readFraction_cons hc] at h ⊢
      cases h
      rfl

open Spelling (splitSign)

theorem readExponent_cons : readExponent wanted (c :: s) =
    if c = 'e' ∨ c = 'E' then
      if (digits (splitSign s).2).1 = [] then
        .error (missingDigit wanted (digits (splitSign s).2).2)
      else
        .ok (some (if (splitSign s).1 then -(Numeral.digitsValue (digits (splitSign s).2).1 : Int)
          else Numeral.digitsValue (digits (splitSign s).2).1), (digits (splitSign s).2).2)
    else .ok (none, c :: s) := rfl

theorem readExponent_of_breaks (ht : Breaks t) : readExponent wanted t = .ok (none, t) := by
  cases t with
  | nil => rfl
  | cons c t => rw [readExponent_cons, if_neg (by simp [(ht c rfl).2.2])]

theorem splitSign_append (hs : s ≠ []) :
    splitSign (s ++ t) = ((splitSign s).1, (splitSign s).2 ++ t) := by
  obtain ⟨c, s, rfl⟩ := List.exists_cons_of_ne_nil hs
  by_cases hplus : c = '+'
  · subst hplus
    rfl
  by_cases hminus : c = '-'
  · subst hminus
    rfl
  · have hplain (s : List Char) : splitSign (c :: s) = (false, c :: s) := by
      unfold splitSign
      split
      · next heq => exact absurd (List.cons.inj heq).1 hplus
      · next heq => exact absurd (List.cons.inj heq).1 hminus
      · rfl
    rw [List.cons_append, hplain, hplain]
    rfl

theorem readExponent_append {e? : Option Int} (ht : Breaks t)
    (h : readExponent true s = .ok (e?, r)) : readExponent wanted (s ++ t) = .ok (e?, r ++ t) := by
  match s with
  | [] =>
    cases h
    exact readExponent_of_breaks ht
  | c :: s =>
    rw [List.cons_append, readExponent_cons]
    rw [readExponent_cons] at h
    split at h
    · next hc =>
      rw [if_pos hc]
      split at h
      · cases h
      · next hds =>
        have hs : s ≠ [] := by
          rintro rfl
          exact hds rfl
        cases h
        simp only [splitSign_append hs, digits_append ht]
        rw [if_neg hds]
    · next hc =>
      rw [if_neg hc]
      cases h
      rfl

/-- The whole part of a number, and the text after it. -/
def readWhole (wanted : Bool) (s : List Char) : Reading (List Char) :=
  match s with
  | [] => .error (missingDigit wanted [])
  | '0' :: s' =>
    if s'.head?.any Char.isDigit then .error .malformed else .ok (['0'], s')
  | c :: s' => if c.isDigit then .ok (digits (c :: s')) else .error .malformed

theorem readWhole_cons (hc : c ≠ '0') : readWhole wanted (c :: s) =
    if c.isDigit then .ok (digits (c :: s)) else .error .malformed := by
  rw [readWhole.eq_def]
  split
  · next heq => cases heq
  · next heq => exact absurd (List.cons.inj heq).1 hc
  · next heq =>
    cases heq
    rfl

/-- A number without its sign is a whole part, a fraction and a power of ten. -/
theorem readUnsigned_eq {negative : Bool} : readUnsigned wanted negative s = (do
    let whole ← readWhole wanted s
    let fraction ← readFraction wanted whole.2
    let exponent ← readExponent wanted fraction.2
    return (⟨negative, whole.1, fraction.1, exponent.1⟩, exponent.2)) := by
  unfold readUnsigned
  split
  · rfl
  · simp only [readWhole]
    split <;> rfl
  · next c s hne =>
    have hc : c ≠ '0' := fun heq => hne heq
    rw [readWhole_cons hc]
    split <;> rfl

theorem readWhole_append (ht : Breaks t) (h : readWhole true s = .ok (w, r)) :
    readWhole wanted (s ++ t) = .ok (w, r ++ t) := by
  match s with
  | [] => cases h
  | c :: s =>
    rw [List.cons_append]
    by_cases hc : c = '0'
    · subst hc
      simp only [readWhole] at h ⊢
      split at h
      · cases h
      · next hnone =>
        cases h
        rw [if_neg]
        cases r with
        | nil =>
          cases t with
          | nil => simp
          | cons c t => simp [(ht c rfl).1]
        | cons d s => exact hnone
    · rw [readWhole_cons hc] at h ⊢
      split at h
      · next hdigit =>
        rw [if_pos hdigit, ← List.cons_append, digits_append ht, Except.ok.inj h]
      · cases h

theorem readUnsigned_append {negative : Bool} {n : Numeral} (ht : Breaks t)
    (h : readUnsigned true negative s = .ok (n, r)) :
    readUnsigned wanted negative (s ++ t) = .ok (n, r ++ t) := by
  rw [readUnsigned_eq] at h ⊢
  obtain ⟨⟨w, s₁⟩, hw, h⟩ := exists_of_bind_eq_ok h
  obtain ⟨⟨f, s₂⟩, hf, h⟩ := exists_of_bind_eq_ok h
  obtain ⟨⟨e?, s₃⟩, he, h⟩ := exists_of_bind_eq_ok h
  cases h
  rw [readWhole_append ht hw]
  dsimp only [bind, Except.bind]
  rw [readFraction_append ht hf]
  dsimp only
  rw [readExponent_append ht he]
  rfl

theorem readNumeral_cons (hc : c ≠ '-') :
    readNumeral wanted (c :: s) = readUnsigned wanted false (c :: s) := by
  rw [readNumeral.eq_def]
  split
  · next heq => exact absurd (List.cons.inj heq).1 hc
  · rfl

/-- A number is read the same before any text that does not go on with it. -/
theorem readNumeral_append {n : Numeral} (ht : Breaks t)
    (h : readNumeral true s = .ok (n, r)) :
    readNumeral wanted (s ++ t) = .ok (n, r ++ t) := by
  match s with
  | [] => cases h
  | c :: s =>
    rw [List.cons_append]
    by_cases hc : c = '-'
    · subst hc
      exact readUnsigned_append ht h
    · rw [readNumeral_cons hc] at h ⊢
      exact readUnsigned_append ht h

/-! ### Strings -/

theorem readHex4_append (h : readHex4 s = .ok n) :
    readHex4 (s ++ t) = .ok n ∧ (s ++ t).drop 4 = s.drop 4 ++ t := by
  have hlen : (s.take 4).length = 4 := by
    rw [readHex4] at h
    split at h
    · next hds => exact (mapM_eq_some_iff.1 hds).length_eq
    · cases h
  rw [List.length_take] at hlen
  have hzero : 4 - s.length = 0 := by omega
  refine ⟨?_, ?_⟩
  · rw [readHex4, List.take_append, hzero, List.take_zero, List.append_nil]
    exact h
  · rw [List.drop_append, hzero, List.drop_zero]

theorem readText_of_escape (h : readEscape wanted s = .ok (c, n)) :
    readText wanted ('\\' :: s) =
      (readText wanted (s.drop n)).map fun r => (c :: r.1, r.2) := by
  rw [readText, h]
  dsimp only
  cases readText wanted (s.drop n) <;> rfl

theorem readText_plain (hquote : c ≠ '"') (hback : c ≠ '\\') (hlow : ¬c.toNat < 32) :
    readText wanted (c :: s) = (readText wanted s).map fun r => (c :: r.1, r.2) := by
  rw [readText, if_neg hlow]
  · cases readText wanted s <;> rfl
  · exact hquote
  · exact hback

/-- An escape other than by number is one letter, which stands for one character. -/
theorem readEscape_letter {d : Char} (hd : d ≠ 'u') (h : readEscape true (d :: s) = .ok (c, n)) :
    n = 1 ∧ ∀ s', readEscape false (d :: s') = .ok (c, 1) := by
  unfold readEscape at h
  split at h
  case h_10 heq => exact absurd (List.cons.inj heq).1 hd
  all_goals
    first
    | contradiction
    | next heq =>
      cases heq
      cases h
      exact ⟨rfl, fun _ => rfl⟩

/-- An escape by number that is passed over, be it half of a pair or not. -/
theorem readText_number (h : readHex4 s = .ok n)
    (hrest : readText false (s.drop 4 ++ t) = .ok (cs, r)) :
    readText false ('\\' :: 'u' :: (s ++ t)) = .ok (Char.ofNat n :: cs, r) := by
  obtain ⟨hhex, hdrop⟩ := readHex4_append (t := t) h
  have hescape : readEscape false ('u' :: (s ++ t)) = .ok (Char.ofNat n, 5) := by
    simp only [readEscape, readUnicodeEscape, hhex]
    rfl
  rw [readText_of_escape hescape, List.drop_succ_cons, hdrop, hrest]
  rfl

/-- The number of an escape, or the two numbers of a pair. -/
theorem readUnicodeEscape_cases (h : readUnicodeEscape true s = .ok (c, n)) :
    (∃ m, readHex4 s = .ok m ∧ n = 4) ∨
      ∃ m s' m', readHex4 s = .ok m ∧ s.drop 4 = '\\' :: 'u' :: s' ∧ readHex4 s' = .ok m' ∧
        n = 10 := by
  rw [readUnicodeEscape] at h
  cases hm : readHex4 s with
  | error e =>
    rw [hm] at h
    cases h
  | ok m =>
    simp only [hm, bind, Except.bind, pure, Except.pure] at h
    simp only [Bool.not_true, Bool.false_eq_true, if_false] at h
    split at h
    · cases h
    split at h
    · split at h
      · cases h
      · cases h
      · next s' hs' =>
        split at h
        · cases h
        · next m' hm' =>
          split at h
          · simp only [Except.ok.injEq, Prod.mk.injEq] at h
            exact .inr ⟨m, s', m', rfl, hs', hm', h.2.symm⟩
          · cases h
      · cases h
    · cases h
      exact .inl ⟨m, rfl, rfl⟩

/-- An escape of a wanted string can be passed over. A pair is then two escapes, each of which
stands for a character of its own. -/
theorem readText_escape (h : readEscape true s = .ok (c, n))
    (hrest : readText false (s.drop n ++ t) = .ok (cs, r)) :
    ∃ cs', readText false ('\\' :: (s ++ t)) = .ok (cs', r) := by
  match s with
  | [] => cases h
  | d :: s =>
    by_cases hd : d = 'u'
    · subst hd
      rw [readEscape] at h
      cases hu : readUnicodeEscape true s with
      | error e =>
        rw [hu] at h
        cases h
      | ok u =>
        rw [hu] at h
        cases h
        rw [List.drop_succ_cons] at hrest
        obtain ⟨m, hm, hn⟩ | ⟨m, s', m', hm, hs', hm', hn⟩ := readUnicodeEscape_cases hu
        · rw [hn] at hrest
          exact ⟨_, readText_number hm hrest⟩
        -- The second escape of a pair is passed over after the first, as one of its own.
        · have hdrop : s.drop 10 = s'.drop 4 := by
            rw [show s.drop 10 = (s.drop 4).drop 6 by rw [List.drop_drop], hs']
            rfl
          rw [hn, hdrop] at hrest
          have hsecond : readText false (s.drop 4 ++ t) = .ok (Char.ofNat m' :: cs, r) := by
            rw [hs']
            exact readText_number hm' hrest
          exact ⟨_, readText_number hm hsecond⟩
    · obtain ⟨hn, hescape⟩ := readEscape_letter hd h
      refine ⟨c :: cs, ?_⟩
      rw [hn, List.drop_succ_cons, List.drop_zero] at hrest
      rw [List.cons_append, readText_of_escape (hescape _), List.drop_succ_cons, List.drop_zero,
        hrest]
      rfl

/-- A string that makes sense can be passed over, whatever comes after it. -/
theorem readText_append (h : readText true s = .ok (cs, r)) :
    ∃ cs', readText false (s ++ t) = .ok (cs', r ++ t) := by
  fun_induction readText true s generalizing cs r with
  | case1 => cases h
  | case2 s =>
    cases h
    exact ⟨[], by rw [List.cons_append, readText]⟩
  | case3 | case4 => cases h
  | case5 s c n hescape cs s' hrest ih =>
    cases h
    obtain ⟨cs', hcs'⟩ := ih hrest
    exact readText_escape hescape hcs'
  | case6 | case7 => cases h
  | case8 c s hquote hback hlow cs s' hrest ih =>
    cases h
    obtain ⟨cs', hcs'⟩ := ih hrest
    exact ⟨c :: cs', by rw [List.cons_append, readText_plain hquote hback hlow, hcs']; rfl⟩

end Json

end WorkspaceWatch
