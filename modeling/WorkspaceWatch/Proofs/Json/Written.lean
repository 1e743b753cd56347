import WorkspaceWatch.Json.Decode
import WorkspaceWatch.Proofs.Json.Parts
import WorkspaceWatch.Proofs.Number.Digits

/-!
# Reading back what is written

The parts of rendered values are read as what they were rendered from: a string character by
character, whichever way each is escaped, and a number by its digits. The decoders of strings,
counters and names follow.
-/

namespace WorkspaceWatch

namespace Json

variable {s t : List Char} {c : Char} {n : Nat} {wanted : Bool}

/-! ### Strings -/

/-- The two low digits of a control character are read back. -/
theorem readHex4_hexDigit (h : n < 32) :
    readHex4 (['0', '0', hexDigit (n / 16), hexDigit (n % 16)] ++ t) = .ok n := by
  have hall : ∀ m < 32, readHex4 ['0', '0', hexDigit (m / 16), hexDigit (m % 16)] = .ok m := by
    decide
  exact (readHex4_append (hall n h)).1

theorem readText_letter {d : Char} (h : ∀ s', readEscape wanted (d :: s') = .ok (c, 1)) :
    readText wanted ('\\' :: d :: s) = (readText wanted s).map fun r => (c :: r.1, r.2) :=
  readText_of_escape (h s)

theorem readEscape_control (h : c.toNat < 32) :
    readEscape true ('u' :: '0' :: '0' :: hexDigit (c.toNat / 16) :: hexDigit (c.toNat % 16) :: s) =
      .ok (c, 5) := by
  have hlow : isLowHalf c.toNat = false := by simp [isLowHalf]; omega
  have hhigh : isHighHalf c.toNat = false := by simp [isHighHalf]; omega
  have hhex := readHex4_hexDigit (t := s) h
  simp only [List.cons_append, List.nil_append] at hhex
  simp [readEscape, readUnicodeEscape, hhex, hlow, hhigh, bind, Except.bind, pure, Except.pure,
    Except.map]

/-- What one character is rendered as is read as that character. -/
theorem readText_escapeChar (c : Char) (s : List Char) :
    readText true (escapeChar c ++ s) = (readText true s).map fun r => (c :: r.1, r.2) := by
  unfold escapeChar
  split
  · next h => rw [h]; exact readText_letter fun _ => rfl
  split
  · next h => rw [h]; exact readText_letter fun _ => rfl
  split
  · next h => rw [h]; exact readText_letter fun _ => rfl
  split
  · next h => rw [h]; exact readText_letter fun _ => rfl
  split
  · next h => rw [h]; exact readText_letter fun _ => rfl
  split
  · next h => rw [h]; exact readText_letter fun _ => rfl
  split
  · next h => rw [h]; exact readText_letter fun _ => rfl
  split
  · next hlow => exact readText_of_escape (readEscape_control hlow)
  · next hquote hback _ _ _ _ _ hlow => exact readText_plain hquote hback hlow

/-- **A rendered string is read back**, whatever its characters. -/
theorem readText_renderText (s t : List Char) :
    readText true (s.flatMap escapeChar ++ '"' :: t) = .ok (s, t) := by
  induction s with
  | nil => rw [List.flatMap_nil, List.nil_append, readText]
  | cons c s ih =>
    rw [List.flatMap_cons, List.append_assoc, readText_escapeChar, ih]
    rfl

/-! ### Numbers -/

theorem Breaks.isDigit_head (ht : Breaks t) : ∀ c, t.head? = some c → c.isDigit = false :=
  fun c hc => (ht c hc).1

/-- **The digits of a natural number are read back** before a text that does not go on with them. -/
theorem readNumeral_toDigits (ht : Breaks t) (n : Nat) :
    readNumeral wanted (Nat.toDigits 10 n ++ t) = .ok (.ofNat n, t) := by
  obtain ⟨d, ds, hds, hdigit⟩ := Numeral.exists_toDigits_eq_cons n
  have hminus : d ≠ '-' := by
    rintro rfl
    cases hdigit
  have hwhole : readWhole wanted (Nat.toDigits 10 n ++ t) = .ok (Nat.toDigits 10 n, t) := by
    by_cases hd : d = '0'
    · have hzero := Numeral.toDigits_eq_of_head (n := n) (by rw [hds, hd]; rfl)
      rw [hzero, List.singleton_append, readWhole, if_neg]
      cases t with
      | nil => simp
      | cons c t => simp [(ht c rfl).1]
    · obtain ⟨htake, hdrop⟩ := Numeral.takeWhile_toDigits (n := n) ht.isDigit_head
      rw [hds] at htake hdrop ⊢
      rw [List.cons_append, readWhole_cons hd, if_pos hdigit, digits]
      rw [List.cons_append] at htake hdrop
      rw [htake, hdrop]
  rw [hds, List.cons_append, readNumeral_cons hminus, ← List.cons_append, ← hds, readUnsigned_eq,
    hwhole]
  simp only [bind, Except.bind, readFraction_of_breaks ht, readExponent_of_breaks ht]
  rfl

theorem inRange_ofNat (h : n < UInt64.size) : (Numeral.ofNat n).inRange = true := by
  simp [Numeral.inRange, Numeral.ofNat, Numeral.digitsValue_toDigits, h]

/-! ### Values of a fixed shape -/

theorem skipBlank_cons (hc : isBlank c = false) : skipBlank (c :: s) = c :: s := by
  rw [skipBlank, List.dropWhile_cons_of_neg (by simp [hc])]

theorem skipBlank_renderText (s t : List Char) :
    skipBlank (renderText s ++ t) = '"' :: (s.flatMap escapeChar ++ '"' :: t) := by
  rw [renderText, List.cons_append, List.cons_append, List.append_assoc]
  exact skipBlank_cons rfl

/-- **A string is decoded as itself**. -/
theorem decodeText_renderText (s t : List Char) :
    decodeText (renderText s ++ t) = .ok (String.ofList s, t) := by
  simp only [decodeText, skipBlank_renderText, readText_renderText]
  rfl

theorem isBlank_of_isDigit (h : c.isDigit = true) : isBlank c = false := by
  refine Bool.eq_false_iff.2 fun hblank => ?_
  simp only [isBlank, Bool.or_eq_true, decide_eq_true_eq] at hblank
  obtain ((rfl | rfl) | rfl) | rfl := hblank <;> cases h

/-- **A counter is decoded as itself**. -/
theorem decodeUInt64_toDigits (ht : Breaks t) (n : UInt64) :
    decodeUInt64 (Nat.toDigits 10 n.toNat ++ t) = .ok (n, t) := by
  have hread : readNumeral true (Nat.toDigits 10 n.toNat ++ t) = .ok (.ofNat n.toNat, t) :=
    readNumeral_toDigits ht n.toNat
  have hsize : n.toNat < UInt64.size := n.toNat_lt_size
  obtain ⟨d, ds, hds, hdigit⟩ := Numeral.exists_toDigits_eq_cons n.toNat
  have hblank : isBlank d = false := isBlank_of_isDigit hdigit
  rw [hds, List.cons_append] at hread ⊢
  simp only [decodeUInt64, skipBlank_cons hblank, hdigit, or_true, if_true, hread,
    inRange_ofNat hsize]
  simp [Numeral.ofNat, Numeral.digitsValue_toDigits, hsize]

/-- **A name is decoded as what it stands for**. -/
theorem decodeName_renderText {α : Type} {names : List (String × α)} {name : String} {v : α}
    (h : names.find? (fun n => n.1 = name) = some (name, v)) (t : List Char) :
    decodeName names (renderText name.toList ++ t) = .ok (v, t) := by
  simp only [decodeName, skipBlank_renderText, readText_renderText, String.ofList_toList, h]
  rfl

end Json

end WorkspaceWatch
