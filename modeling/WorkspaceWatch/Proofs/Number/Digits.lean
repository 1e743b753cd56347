import WorkspaceWatch.Json.Numeral

/-!
# The digits of a natural number

Numbers are written with `Nat.toDigits`. The digits spell the number they are taken from, they are
all digits, and only zero begins with a zero, so that every reader takes them back as a whole.
-/

namespace WorkspaceWatch

namespace Numeral

variable {n : Nat} {t : List Char}

/-- The digits of a number spell it. -/
theorem digitsValue_toDigits (n : Nat) : digitsValue (Nat.toDigits 10 n) = n :=
  Nat.ofDigitChars_ten_toDigits

theorem isDigit_of_mem {c : Char} (h : c ∈ Nat.toDigits 10 n) : c.isDigit = true :=
  Nat.isDigit_of_mem_toDigits (by decide) (by decide) h

theorem exists_toDigits_eq_cons (n : Nat) :
    ∃ d ds, Nat.toDigits 10 n = d :: ds ∧ d.isDigit = true := by
  obtain ⟨d, ds, hds⟩ := List.exists_cons_of_ne_nil (Nat.toDigits_ne_nil (n := n) (b := 10))
  exact ⟨d, ds, hds, isDigit_of_mem (n := n) (by simp [hds])⟩

/-- Only zero begins with a zero. -/
theorem toDigits_eq_of_head (h : (Nat.toDigits 10 n).head? = some '0') :
    Nat.toDigits 10 n = ['0'] := by
  induction n using Nat.strongRecOn with
  | ind n ih =>
    by_cases hn : n < 10
    · rw [Nat.toDigits_of_lt_base hn] at h ⊢
      rw [Option.some.inj h]
    · rw [Nat.toDigits_of_base_le (by decide) (by omega)] at h
      obtain ⟨d, ds, hds, -⟩ := exists_toDigits_eq_cons (n / 10)
      rw [hds] at h
      have hlow := ih (n / 10) (by omega) (by rw [hds]; exact h)
      have hzero : n / 10 = 0 := by rw [← digitsValue_toDigits (n / 10), hlow]; rfl
      omega

/-- The digits are cut off where they end, before a text that does not go on with one. -/
theorem takeWhile_toDigits (ht : ∀ c, t.head? = some c → c.isDigit = false) :
    (Nat.toDigits 10 n ++ t).takeWhile Char.isDigit = Nat.toDigits 10 n ∧
      (Nat.toDigits 10 n ++ t).dropWhile Char.isDigit = t := by
  have hall : ∀ c ∈ Nat.toDigits 10 n, c.isDigit = true := fun _ => isDigit_of_mem
  rw [List.takeWhile_append_of_pos hall, List.dropWhile_append_of_pos hall]
  cases t with
  | nil => exact ⟨List.append_nil _, rfl⟩
  | cons c t =>
    have hc : ¬c.isDigit = true := by simp [ht c rfl]
    rw [List.takeWhile_cons_of_neg hc, List.dropWhile_cons_of_neg hc]
    exact ⟨List.append_nil _, rfl⟩

end Numeral

end WorkspaceWatch
