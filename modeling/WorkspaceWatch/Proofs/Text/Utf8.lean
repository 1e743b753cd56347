import WorkspaceWatch.Text.Utf8

/-!
# Text and its bytes

`Utf8.decode?` is the inverse of `Utf8.encode`. In one direction, the bytes of a character are cut
off as that character (`pieces_encodeChar`), one lemma for each length it can be written with. In
the other, a character that was cut off from some bytes is written with those bytes
(`isFair_of_mem`): overlong forms and surrogates are junk.

Main statement: `decode?_eq_some_iff`.
-/

namespace WorkspaceWatch

namespace Utf8

variable {a b c d : UInt8} {r : List UInt8}

/-! ### Bytes as numbers -/

theorem toNat_toUInt8 {n : Nat} (h : n < 256) : n.toUInt8.toNat = n := by
  simp [Nat.toUInt8, UInt8.toNat_ofNat', Nat.mod_eq_of_lt h]

theorem isTail_iff : isTail a = true ↔ 0x80 ≤ a.toNat ∧ a.toNat ≤ 0xBF := by
  simp [isTail, UInt8.le_iff_toNat_le]

theorem second3_iff : second3 a b = true ↔
    0x80 ≤ b.toNat ∧ b.toNat ≤ 0xBF ∧ (a.toNat = 0xE0 → 0xA0 ≤ b.toNat) ∧
      (a.toNat = 0xED → b.toNat ≤ 0x9F) := by
  have h1 : a = 0xE0 ↔ a.toNat = 0xE0 := UInt8.toNat_inj.symm
  have h2 : a = 0xED ↔ a.toNat = 0xED := UInt8.toNat_inj.symm
  unfold second3
  split
  · next h => simp [UInt8.le_iff_toNat_le, h]; omega
  · next h =>
    rw [h1] at h
    split
    · next h' => simp [UInt8.le_iff_toNat_le, h']; omega
    · next h' =>
      rw [h2] at h'
      rw [isTail_iff]
      omega

theorem second4_iff : second4 a b = true ↔
    0x80 ≤ b.toNat ∧ b.toNat ≤ 0xBF ∧ (a.toNat = 0xF0 → 0x90 ≤ b.toNat) ∧
      (a.toNat = 0xF4 → b.toNat ≤ 0x8F) := by
  have h1 : a = 0xF0 ↔ a.toNat = 0xF0 := UInt8.toNat_inj.symm
  have h2 : a = 0xF4 ↔ a.toNat = 0xF4 := UInt8.toNat_inj.symm
  unfold second4
  split
  · next h => simp [UInt8.le_iff_toNat_le, h]; omega
  · next h =>
    rw [h1] at h
    split
    · next h' => simp [UInt8.le_iff_toNat_le, h']; omega
    · next h' =>
      rw [h2] at h'
      rw [isTail_iff]
      omega

/-! ### From characters to bytes -/

theorem pieces_one (h : a.toNat < 0x80) :
    pieces (a :: r) = .char (Char.ofNat a.toNat) [a] :: pieces r := by
  rw [pieces.eq_def]
  exact if_pos (UInt8.lt_iff_toNat_lt.2 h)

theorem pieces_two (ha : 0xC2 ≤ a.toNat) (ha' : a.toNat ≤ 0xDF) (hb : isTail b = true) :
    pieces (a :: b :: r) =
      .char (Char.ofNat (a.toNat % 32 * 64 + tailBits b)) [a, b] :: pieces r := by
  rw [pieces.eq_def]
  simp [UInt8.le_iff_toNat_le, UInt8.lt_iff_toNat_lt, ha, ha', hb]
  omega

theorem pieces_three (ha : 0xE0 ≤ a.toNat) (ha' : a.toNat ≤ 0xEF) (hb : second3 a b = true)
    (hc : isTail c = true) : pieces (a :: b :: c :: r) =
      .char (Char.ofNat (a.toNat % 16 * 4096 + tailBits b * 64 + tailBits c)) [a, b, c] ::
        pieces r := by
  have h1 : ¬ a.toNat < 0x80 := by omega
  have h2 : ¬ a.toNat ≤ 0xDF := by omega
  rw [pieces.eq_def]
  simp [UInt8.le_iff_toNat_le, UInt8.lt_iff_toNat_lt, ha, ha', hb, hc, h1, h2]

theorem pieces_four (ha : 0xF0 ≤ a.toNat) (ha' : a.toNat ≤ 0xF4) (hb : second4 a b = true)
    (hc : isTail c = true) (hd : isTail d = true) : pieces (a :: b :: c :: d :: r) =
      .char (Char.ofNat (a.toNat % 8 * 262144 + tailBits b * 4096 + tailBits c * 64 + tailBits d))
        [a, b, c, d] :: pieces r := by
  have h1 : ¬ a.toNat < 0x80 := by omega
  have h2 : ¬ a.toNat ≤ 0xDF := by omega
  have h3 : ¬ a.toNat ≤ 0xEF := by omega
  rw [pieces.eq_def]
  simp [UInt8.le_iff_toNat_le, UInt8.lt_iff_toNat_lt, ha, ha', hb, hc, hd, h1, h2, h3]

/-- The bytes of a character are cut off as that character. -/
theorem pieces_encodeChar (c : Char) (bs : List UInt8) :
    pieces (encodeChar c ++ bs) = .char c (encodeChar c) :: pieces bs := by
  have hvalid : c.toNat < 0xD800 ∨ 0xDFFF < c.toNat ∧ c.toNat < 0x110000 := c.valid
  have hchar : Char.ofNat c.toNat = c := Char.ofNat_toNat c
  rw [encodeChar]
  generalize c.toNat = n at *
  split
  · rw [List.singleton_append, pieces_one (by rwa [toNat_toUInt8 (by omega)]),
      toNat_toUInt8 (by omega), hchar]
  split
  · have ha : (0xC0 + n / 64).toUInt8.toNat = 0xC0 + n / 64 := toNat_toUInt8 (by omega)
    have hb : (0x80 + n % 64).toUInt8.toNat = 0x80 + n % 64 := toNat_toUInt8 (by omega)
    have hn : (0xC0 + n / 64) % 32 * 64 + (0x80 + n % 64) % 64 = n := by omega
    simp only [List.cons_append, List.nil_append]
    rw [pieces_two (by omega) (by omega) (isTail_iff.2 (by omega)), tailBits, ha, hb, hn, hchar]
  split
  · have ha : (0xE0 + n / 4096).toUInt8.toNat = 0xE0 + n / 4096 := toNat_toUInt8 (by omega)
    have hb : (0x80 + n / 64 % 64).toUInt8.toNat = 0x80 + n / 64 % 64 := toNat_toUInt8 (by omega)
    have hc : (0x80 + n % 64).toUInt8.toNat = 0x80 + n % 64 := toNat_toUInt8 (by omega)
    have hn : (0xE0 + n / 4096) % 16 * 4096 + (0x80 + n / 64 % 64) % 64 * 64 +
      (0x80 + n % 64) % 64 = n := by omega
    simp only [List.cons_append, List.nil_append]
    rw [pieces_three (by omega) (by omega) (second3_iff.2 (by omega)) (isTail_iff.2 (by omega)),
      tailBits, tailBits, ha, hb, hc, hn, hchar]
  · have ha : (0xF0 + n / 262144).toUInt8.toNat = 0xF0 + n / 262144 := toNat_toUInt8 (by omega)
    have hb : (0x80 + n / 4096 % 64).toUInt8.toNat = 0x80 + n / 4096 % 64 :=
      toNat_toUInt8 (by omega)
    have hc : (0x80 + n / 64 % 64).toUInt8.toNat = 0x80 + n / 64 % 64 := toNat_toUInt8 (by omega)
    have hd : (0x80 + n % 64).toUInt8.toNat = 0x80 + n % 64 := toNat_toUInt8 (by omega)
    have hn : (0xF0 + n / 262144) % 8 * 262144 + (0x80 + n / 4096 % 64) % 64 * 4096 +
      (0x80 + n / 64 % 64) % 64 * 64 + (0x80 + n % 64) % 64 = n := by omega
    simp only [List.cons_append, List.nil_append]
    rw [pieces_four (by omega) (by omega) (second4_iff.2 (by omega)) (isTail_iff.2 (by omega))
      (isTail_iff.2 (by omega)), tailBits, tailBits, tailBits, ha, hb, hc, hd, hn, hchar]

/-- What is encoded can be decoded. -/
theorem decode?_encode (s : List Char) : decode? (encode s) = some s := by
  induction s with
  | nil => rfl
  | cons c s ih =>
    rw [decode?] at ih ⊢
    rw [encode_cons, pieces_encodeChar, List.mapM_cons, Piece.char?, ih]
    rfl

/-! ### From bytes to characters -/

theorem toUInt8_eq {n : Nat} (h : n = a.toNat) : n.toUInt8 = a := by
  rw [h]; simp

theorem toNat_ofNat {n : Nat} (h : n < 0xD800 ∨ 0xDFFF < n ∧ n < 0x110000) :
    (Char.ofNat n).toNat = n := by
  have hvalid : n.isValidChar := h
  rw [Char.ofNat, dif_pos hvalid]
  rfl

theorem encodeChar_one (h : a.toNat < 0x80) : encodeChar (Char.ofNat a.toNat) = [a] := by
  rw [encodeChar, toNat_ofNat (by omega)]
  simp [h]

theorem encodeChar_two (ha : 0xC2 ≤ a.toNat) (ha' : a.toNat ≤ 0xDF) (hb : isTail b = true) :
    encodeChar (Char.ofNat (a.toNat % 32 * 64 + tailBits b)) = [a, b] := by
  obtain ⟨hb, hb'⟩ := isTail_iff.1 hb
  unfold tailBits
  rw [encodeChar, toNat_ofNat (by omega)]
  rw [if_neg (by omega), if_pos (by omega), toUInt8_eq (a := a) (by omega),
    toUInt8_eq (a := b) (by omega)]

theorem encodeChar_three (ha : 0xE0 ≤ a.toNat) (ha' : a.toNat ≤ 0xEF) (hb : second3 a b = true)
    (hc : isTail c = true) :
    encodeChar (Char.ofNat (a.toNat % 16 * 4096 + tailBits b * 64 + tailBits c)) = [a, b, c] := by
  obtain ⟨hb, hb', hlow, hhigh⟩ := second3_iff.1 hb
  obtain ⟨hc, hc'⟩ := isTail_iff.1 hc
  unfold tailBits
  rw [encodeChar, toNat_ofNat (by omega)]
  rw [if_neg (by omega), if_neg (by omega), if_pos (by omega), toUInt8_eq (a := a) (by omega),
    toUInt8_eq (a := b) (by omega), toUInt8_eq (a := c) (by omega)]

theorem encodeChar_four (ha : 0xF0 ≤ a.toNat) (ha' : a.toNat ≤ 0xF4) (hb : second4 a b = true)
    (hc : isTail c = true) (hd : isTail d = true) :
    encodeChar (Char.ofNat
      (a.toNat % 8 * 262144 + tailBits b * 4096 + tailBits c * 64 + tailBits d)) =
        [a, b, c, d] := by
  obtain ⟨hb, hb', hlow, hhigh⟩ := second4_iff.1 hb
  obtain ⟨hc, hc'⟩ := isTail_iff.1 hc
  obtain ⟨hd, hd'⟩ := isTail_iff.1 hd
  unfold tailBits
  rw [encodeChar, toNat_ofNat (by omega)]
  rw [if_neg (by omega), if_neg (by omega), if_neg (by omega), toUInt8_eq (a := a) (by omega),
    toUInt8_eq (a := b) (by omega), toUInt8_eq (a := c) (by omega), toUInt8_eq (a := d) (by omega)]

/-- If the piece is a character, it was cut off from the bytes that encode it. -/
private def Piece.IsFair (p : Piece) : Prop := ∀ x, p.char? = some x → p.bytes = encodeChar x

theorem isFair_junk (bs : List UInt8) : (Piece.junk bs).IsFair := nofun

theorem isFair_char {x : Char} {bs : List UInt8} (h : encodeChar x = bs) :
    (Piece.char x bs).IsFair := by
  rintro y ⟨⟩
  exact h.symm

/-- Bytes are never read as a character that is encoded differently. -/
theorem isFair_of_mem {bs : List UInt8} : ∀ p ∈ pieces bs, p.IsFair := by
  fun_induction pieces bs with
  | case1 => simp
  | case2 a r h ih =>
    exact List.forall_mem_cons.2 ⟨isFair_char (encodeChar_one (UInt8.lt_iff_toNat_lt.1 h)), ih⟩
  | case3 a h1 h2 b r hb ih =>
    simp only [Bool.and_eq_true, decide_eq_true_eq, UInt8.le_iff_toNat_le] at h2
    exact List.forall_mem_cons.2 ⟨isFair_char (encodeChar_two h2.1 h2.2 hb), ih⟩
  | case6 a h1 h2 h3 b hb c r hc ih =>
    simp only [Bool.and_eq_true, decide_eq_true_eq, UInt8.le_iff_toNat_le] at h3
    exact List.forall_mem_cons.2 ⟨isFair_char (encodeChar_three h3.1 h3.2 hb hc), ih⟩
  | case11 a h1 h2 h3 h4 b hb c hc d r hd ih =>
    simp only [Bool.and_eq_true, decide_eq_true_eq, UInt8.le_iff_toNat_le] at h4
    exact List.forall_mem_cons.2 ⟨isFair_char (encodeChar_four h4.1 h4.2 hb hc hd), ih⟩
  | _ => simp_all [isFair_junk]

theorem encode_of_mapM {ps : List Piece} {s : List Char} (hfair : ∀ p ∈ ps, p.IsFair)
    (hs : ps.mapM Piece.char? = some s) : encode s = ps.flatMap Piece.bytes := by
  induction ps generalizing s with
  | nil =>
    cases hs
    rfl
  | cons p ps ih =>
    obtain ⟨hp, hps⟩ := List.forall_mem_cons.1 hfair
    simp only [List.mapM_cons, Option.bind_eq_bind, Option.bind_eq_some_iff, Option.pure_def,
      Option.some.injEq] at hs
    obtain ⟨x, hx, t, ht, rfl⟩ := hs
    rw [encode_cons, List.flatMap_cons, hp x hx, ih hps ht]

/-- **Bytes are text exactly if some text is encoded by them**, and then they are that text. -/
theorem decode?_eq_some_iff {bs : List UInt8} {s : List Char} :
    decode? bs = some s ↔ bs = encode s := by
  constructor
  · intro h
    rw [encode_of_mapM isFair_of_mem h, bytes_pieces]
  · rintro rfl
    exact decode?_encode s

end Utf8
end WorkspaceWatch
