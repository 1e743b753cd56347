import WorkspaceWatch.Proofs.Results
import WorkspaceWatch.Toml.Quoted

/-!
# Strings are read back

A string is written in one of five notations, and each is read back as the string (`read_write`):
between single marks on one line, between triple marks over several, with escapes or literally. Two
facts carry the proof. Literal notations are chosen only for strings without the characters and the
runs of marks that would end or break them, and between quotes every other character is either plain
or escaped, a run of quotes being broken before it could end the string.
-/

namespace WorkspaceWatch

namespace Toml.Quoted

variable {s t rest body : List Char} {c mark : Char} {multi : Bool} {n : Nat}

/-! ### Characters -/

/-- The four digits of a number below 128 are read back. -/
theorem readHex_upperHex (h : n < 128) :
    readHex 4 (['0', '0', upperHex (n / 16), upperHex (n % 16)] ++ t) = .ok (Char.ofNat n, 4) := by
  have hall : ∀ m < 128,
      readHex 4 ['0', '0', upperHex (m / 16), upperHex (m % 16)] = .ok (Char.ofNat m, 4) := by
    decide
  exact hall n h

/-- What a character is written as between quotes: itself, if it is plain, a line feed, if the
string may span lines, or an escape. -/
theorem escaped_cases (multi : Bool) (c : Char) :
    (escaped multi c = [c] ∧ isPlain c = true ∧ c ≠ '\\') ∨
      (escaped multi c = [c] ∧ multi = true ∧ c = '\n') ∨
      ∃ d w, escaped multi c = '\\' :: d :: w ∧ (d = '\\' ∨ d.isAlpha = true) ∧
        ∀ t, readEscape (d :: (w ++ t)) = .ok (c, w.length + 1) := by
  unfold escaped
  split
  · next h => exact .inr (.inr ⟨'b', [], rfl, .inr rfl, fun _ => h ▸ rfl⟩)
  split
  · next h => exact .inr (.inr ⟨'t', [], rfl, .inr rfl, fun _ => h ▸ rfl⟩)
  split
  · next h =>
    split
    · next hmulti => exact .inr (.inl ⟨by rw [h], hmulti, h⟩)
    · exact .inr (.inr ⟨'n', [], rfl, .inr rfl, fun _ => h ▸ rfl⟩)
  split
  · next h => exact .inr (.inr ⟨'f', [], rfl, .inr rfl, fun _ => h ▸ rfl⟩)
  split
  · next h => exact .inr (.inr ⟨'r', [], rfl, .inr rfl, fun _ => h ▸ rfl⟩)
  split
  · next h => exact .inr (.inr ⟨'\\', [], rfl, .inl rfl, fun _ => by rw [h]; rfl⟩)
  split
  · next hback hplain => exact .inl ⟨rfl, hplain, hback⟩
  · next hplain =>
    refine .inr (.inr ⟨'u', _, rfl, .inr rfl, fun t => ?_⟩)
    have hlow : c.toNat < 128 := by
      simp [isPlain] at hplain
      omega
    have hhex := readHex_upperHex (t := t) hlow
    rw [Char.ofNat_toNat] at hhex
    rw [readEscape, hhex]
    rfl

/-! ### On one line -/

theorem readSingle_plain (hmark : c ≠ mark) (hback : c ≠ '\\' ∨ mark ≠ '"')
    (hplain : isPlain c = true) :
    readSingle mark (c :: s) = (readSingle mark s).map fun r => (c :: r.1, r.2) := by
  rw [readSingle, if_neg hmark, if_neg (by tauto), if_pos hplain]

theorem readSingle_escape {d : Char} {w : List Char}
    (h : readEscape (d :: (w ++ t)) = .ok (c, w.length + 1)) :
    readSingle '"' ('\\' :: d :: (w ++ t)) = (readSingle '"' t).map fun r => (c :: r.1, r.2) := by
  rw [readSingle, if_neg (by decide), if_pos (by decide), h]
  simp

/-- What is written between quotes on one line is read back. -/
theorem readSingle_escapedFrom (s rest : List Char) (run : Nat) :
    readSingle '"' (escapedFrom false 0 run s ++ '"' :: rest) = .ok (s, rest) := by
  induction s generalizing run with
  | nil => rw [escapedFrom, List.nil_append, readSingle, if_pos rfl]
  | cons c s ih =>
    rw [escapedFrom]
    split
    · next h =>
      have hstep := readSingle_escape (c := '"') (d := '"') (w := [])
        (t := escapedFrom false 0 0 s ++ '"' :: rest) rfl
      rw [List.nil_append, ih] at hstep
      rw [if_neg (Nat.not_lt_zero _), h]
      exact hstep
    · next hquote =>
      rw [List.append_assoc]
      obtain ⟨heq, hplain, hback⟩ | ⟨-, hmulti, -⟩ | ⟨d, w, heq, -, hread⟩ :=
        escaped_cases false c
      · rw [heq, List.singleton_append, readSingle_plain hquote (.inl hback) hplain, ih]
        rfl
      · cases hmulti
      · rw [heq, List.cons_append, List.cons_append, readSingle_escape (hread _), ih]
        rfl

/-- What is written between apostrophes on one line is read back. -/
theorem readSingle_literal (hall : ∀ c ∈ s, isPlain c = true) (hnone : mark ∉ s)
    (hmark : mark ≠ '"') :
    readSingle mark (s ++ mark :: rest) = .ok (s, rest) := by
  induction s with
  | nil => rw [List.nil_append, readSingle, if_pos rfl]
  | cons c s ih =>
    obtain ⟨hc, hs⟩ := List.forall_mem_cons.1 hall
    rw [List.mem_cons, not_or] at hnone
    rw [List.cons_append, readSingle_plain (Ne.symm hnone.1) (.inr hmark) hc, ih hs hnone.2]
    rfl

/-! ### Over several lines -/

/-- In a string that may span lines, `d` and `w` after it stand for the character `c`. They do not
begin with a mark, and with a line end only if they stand for one. -/
structure StandsFor (mark d : Char) (w : List Char) (c : Char) : Prop where
  apart : d ≠ mark
  feed : d = '\n' → c = '\n'
  stays : d ≠ '\r'
  read : ∀ t, readMulti mark (d :: (w ++ t)) = (readMulti mark t).map fun r => (c :: r.1, r.2)

/-- How a text is written in a string that may span lines: marks stand for themselves, but no more
than two of them stand together. Here `run` of them stand before the text. -/
inductive Written (mark : Char) : (run : Nat) → (s body : List Char) → Prop
  | done {run : Nat} (few : run ≤ 2) : Written mark run [] []
  | mark {run : Nat} {s body : List Char} (rest : Written mark (run + 1) s body) :
    Written mark run (mark :: s) (mark :: body)
  | char {run : Nat} {c d : Char} {w s body : List Char} (few : run ≤ 2)
    (first : StandsFor mark d w c) (rest : Written mark 0 s body) :
    Written mark run (c :: s) (d :: (w ++ body))

theorem readMulti_cons : readMulti mark (c :: s) =
    if c = mark then
      if s.take 2 = [mark, mark] then .ok (closing mark (s.drop 2))
      else (readMulti mark s).map fun r => (c :: r.1, r.2)
    else if c = '\\' ∧ mark = '"' then
      match afterFold? s with
      | some t => readMulti mark t
      | none =>
        match readEscape s with
        | .error e => .error e
        | .ok (d, n) => (readMulti mark (s.drop n)).map fun r => (d :: r.1, r.2)
    else if c = '\n' then (readMulti mark s).map fun r => ('\n' :: r.1, r.2)
    else if c = '\r' then
      match s with
      | '\n' :: s => (readMulti mark s).map fun r => ('\n' :: r.1, r.2)
      | _ => .error .malformed
    else if isPlain c then (readMulti mark s).map fun r => (c :: r.1, r.2)
    else .error .malformed := by
  rw [readMulti.eq_def]
  dsimp only
  refine if_congr Iff.rfl rfl (if_congr Iff.rfl ?_ rfl)
  cases afterFold? s with
  | none => rfl
  | some t => rfl

theorem readMulti_mark (h : s.take 2 ≠ [mark, mark]) :
    readMulti mark (mark :: s) = (readMulti mark s).map fun r => (mark :: r.1, r.2) := by
  rw [readMulti_cons, if_pos rfl, if_neg h]

/-- Up to two marks before another character stand for themselves. -/
theorem readMulti_replicate {run : Nat} (hfew : run ≤ 2) (hc : c ≠ mark) :
    readMulti mark (List.replicate run mark ++ c :: t) =
      (readMulti mark (c :: t)).map fun r => (List.replicate run mark ++ r.1, r.2) := by
  have hone : readMulti mark (mark :: c :: t) =
      (readMulti mark (c :: t)).map fun r => (mark :: r.1, r.2) :=
    readMulti_mark (by simp [hc])
  match run with
  | 0 =>
    rw [List.replicate_zero, List.nil_append]
    cases readMulti mark (c :: t) <;> rfl
  | 1 => exact hone
  | 2 =>
    have htwo : readMulti mark (mark :: mark :: c :: t) =
        (readMulti mark (mark :: c :: t)).map fun r => (mark :: r.1, r.2) :=
      readMulti_mark (by simp [hc])
    rw [hone] at htwo
    refine htwo.trans ?_
    cases readMulti mark (c :: t) <;> rfl

/-- The closing marks, with up to two marks before them. -/
theorem readMulti_close {run : Nat} (hfew : run ≤ 2) (hrest : rest.head? ≠ some mark) :
    readMulti mark (List.replicate run mark ++ mark :: mark :: mark :: rest) =
      .ok (List.replicate run mark, rest) := by
  have hswap : List.replicate run mark ++ mark :: mark :: mark :: rest =
      mark :: mark :: mark :: (List.replicate run mark ++ rest) := by
    rw [List.append_cons, List.append_cons, List.append_cons]
    simp only [← List.replicate_succ', List.replicate_succ, List.cons_append]
  have htake : (List.replicate run mark ++ rest).takeWhile (· = mark) =
      List.replicate run mark := by
    rw [List.takeWhile_append_of_pos (by simp)]
    cases rest with
    | nil => exact List.append_nil _
    | cons d rest =>
      have hd : ¬d = mark := by simpa using hrest
      rw [List.takeWhile_cons_of_neg (by simpa using hd), List.append_nil]
  have hclosed : (mark :: mark :: (List.replicate run mark ++ rest)).take 2 = [mark, mark] := rfl
  rw [hswap, readMulti_cons, if_pos rfl, if_pos hclosed, closing]
  simp only [List.drop_succ_cons, List.drop_zero, htake, List.length_replicate,
    Nat.min_eq_right hfew, List.drop_left' (List.length_replicate ..)]

/-- **What is written over several lines is read back**, closing marks and all. The induction
generalises over the marks that have been written last. -/
theorem readMulti_of_written {run : Nat} (h : Written mark run s body)
    (hrest : rest.head? ≠ some mark) :
    readMulti mark (List.replicate run mark ++ (body ++ mark :: mark :: mark :: rest)) =
      .ok (List.replicate run mark ++ s, rest) := by
  induction h with
  | done few => rw [List.nil_append, List.append_nil, readMulti_close few hrest]
  | @mark run s body _ ih =>
    have hmarks (x : List Char) :
        List.replicate run mark ++ mark :: x = List.replicate (run + 1) mark ++ x := by
      rw [List.replicate_succ', List.append_assoc, List.singleton_append]
    rw [List.cons_append, hmarks, hmarks, ih]
  | char few first _ ih =>
    rw [List.replicate_zero, List.nil_append, List.nil_append] at ih
    rw [List.cons_append, List.append_assoc, readMulti_replicate few first.apart, first.read, ih]
    rfl

theorem standsFor_plain (hmark : c ≠ mark) (hback : c ≠ '\\' ∨ mark ≠ '"')
    (hplain : isPlain c = true) : StandsFor mark c [] c := by
  have hfeed : c ≠ '\n' := by
    rintro rfl
    cases hplain
  have hreturn : c ≠ '\r' := by
    rintro rfl
    cases hplain
  refine ⟨hmark, id, hreturn, fun t => ?_⟩
  rw [List.nil_append, readMulti_cons, if_neg hmark, if_neg (by tauto), if_neg hfeed,
    if_neg hreturn, if_pos hplain]

theorem standsFor_feed (hmark : mark ≠ '\n') : StandsFor mark '\n' [] '\n' where
  apart := hmark.symm
  feed := id
  stays := by decide
  read t := by
    rw [List.nil_append, readMulti_cons, if_neg hmark.symm, if_neg (by simp), if_pos rfl]

theorem afterLineEnd?_cons {d : Char} {t : List Char} (hd : d ≠ '\n' ∧ d ≠ '\r') :
    afterLineEnd? (d :: t) = none := by
  rw [afterLineEnd?.eq_def]
  split
  · next heq => exact absurd (List.cons.inj heq).1 hd.1
  · next heq => exact absurd (List.cons.inj heq).1 hd.2
  · rfl

/-- A letter after a backslash, so that no line ends there. -/
theorem standsFor_escape {d : Char} {w : List Char} (hd : d = '\\' ∨ d = '"' ∨ d.isAlpha = true)
    (h : ∀ t, readEscape (d :: (w ++ t)) = .ok (c, w.length + 1)) :
    StandsFor '"' '\\' (d :: w) c where
  apart := by decide
  feed h := by cases h
  stays := by decide
  read t := by
    have hfold : afterFold? (d :: (w ++ t)) = none := by
      have hblank : skipBlank (d :: (w ++ t)) = d :: (w ++ t) := by
        refine List.dropWhile_cons_of_neg fun hblank => ?_
        simp only [Bool.or_eq_true, decide_eq_true_eq] at hblank
        obtain rfl | rfl := hblank <;> simp at hd
      rw [afterFold?, hblank, Option.map_eq_none_iff]
      refine afterLineEnd?_cons ⟨?_, ?_⟩
      all_goals
        rintro rfl
        simp at hd
    rw [List.cons_append, readMulti_cons, if_neg (by decide), if_pos (by decide), hfold, h]
    simp

/-- What is written between quotes over several lines. -/
theorem written_escapedFrom (s : List Char) {run : Nat} (hfew : run ≤ 2) :
    Written '"' run s (escapedFrom true 2 run s) := by
  induction s generalizing run with
  | nil => exact .done hfew
  | cons c s ih =>
    rw [escapedFrom]
    split
    · next h =>
      rw [h]
      split
      · next hless => exact .mark (ih hless)
      · exact .char (w := ['"']) hfew (standsFor_escape (w := []) (.inr (.inl rfl)) fun _ => rfl)
          (ih (Nat.zero_le _))
    · next hquote =>
      obtain ⟨heq, hplain, hback⟩ | ⟨heq, -, rfl⟩ | ⟨d, w, heq, hd, hread⟩ := escaped_cases true c
      · rw [heq]
        exact .char (w := []) hfew (standsFor_plain hquote (.inl hback) hplain) (ih (Nat.zero_le _))
      · rw [heq]
        exact .char (w := []) hfew (standsFor_feed (by decide)) (ih (Nat.zero_le _))
      · rw [heq]
        exact .char (w := d :: w) hfew (standsFor_escape (hd.imp id .inr) hread)
          (ih (Nat.zero_le _))

/-- What is written between apostrophes over several lines. -/
theorem written_literal {run : Nat} (hmark : mark ≠ '"') (hfeed : mark ≠ '\n')
    (hall : ∀ c ∈ s, isPlain c = true ∨ c = '\n') (hfew : longestRun mark run s ≤ 2) :
    Written mark run s s := by
  induction s generalizing run with
  | nil => exact .done hfew
  | cons c s ih =>
    obtain ⟨hc, hs⟩ := List.forall_mem_cons.1 hall
    rw [longestRun] at hfew
    split at hfew
    · next h =>
      rw [h]
      exact .mark (ih hs hfew)
    · next h =>
      obtain ⟨hrun, hrest⟩ := Nat.max_le.1 hfew
      have hfirst : StandsFor mark c [] c := by
        rcases hc with hplain | rfl
        · exact standsFor_plain h (.inr hmark) hplain
        · exact standsFor_feed hfeed
      exact .char (w := []) hrun hfirst (ih hs hrest)

/-- Where no line feed is written, what is written does not begin with a line end. -/
theorem Written.afterLineEnd? {run : Nat} (h : Written mark run s body) (hfeed : '\n' ∉ s)
    (hmark : mark ≠ '\n' ∧ mark ≠ '\r') : afterLineEnd? (body ++ mark :: rest) = none := by
  cases h with
  | done => exact afterLineEnd?_cons hmark
  | mark => exact afterLineEnd?_cons hmark
  | char _ first =>
    refine afterLineEnd?_cons ⟨fun heq => ?_, first.stays⟩
    rw [first.feed heq] at hfeed
    exact hfeed List.mem_cons_self

/-! ### In any form -/

/-- What is written on one line is read back if it does not begin with two marks. -/
theorem read_of_single (hread : readSingle mark (body ++ mark :: rest) = .ok (s, rest))
    (hbody : body.head? ≠ some mark) (hrest : rest.head? ≠ some mark) :
    read mark (body ++ mark :: rest) = .ok (s, rest) := by
  rw [read, if_neg, hread]
  cases body with
  | nil => cases rest <;> simp_all
  | cons d body => simp_all

/-- What is written over several lines is read back. The line feed after the opening marks, which is
there if the text holds one, does not count. -/
theorem read_of_written (h : Written mark 0 s body) (hmark : mark ≠ '\n' ∧ mark ≠ '\r')
    (hrest : rest.head? ≠ some mark) :
    read mark (mark :: mark :: ((if s.contains '\n' then ['\n'] else []) ++ body ++
      mark :: mark :: mark :: rest)) = .ok (s, rest) := by
  have hread := readMulti_of_written h hrest
  rw [List.replicate_zero, List.nil_append, List.nil_append] at hread
  have htwo (x : List Char) : (mark :: mark :: x).take 2 = [mark, mark] := rfl
  rw [read, if_pos (htwo _)]
  simp only [List.drop_succ_cons, List.drop_zero]
  split
  · exact hread
  · next hfeed =>
    rw [List.nil_append, h.afterLineEnd? (by simpa using hfeed) hmark]
    exact hread

theorem le_longestRun (mark : Char) (run : Nat) (s : List Char) : run ≤ longestRun mark run s := by
  induction s generalizing run with
  | nil => exact Nat.le_refl _
  | cons c s ih =>
    rw [longestRun]
    split
    · exact Nat.le_of_succ_le (ih (run + 1))
    · exact Nat.le_max_left ..

theorem not_mem_of_longestRun (h : longestRun mark 0 s ≤ 0) : mark ∉ s := by
  induction s with
  | nil => exact List.not_mem_nil
  | cons c s ih =>
    rw [longestRun] at h
    split at h
    · exact absurd (Nat.le_trans (le_longestRun mark 1 s) h) (by decide)
    · next hc =>
      rw [List.mem_cons, not_or]
      exact ⟨Ne.symm hc, ih (Nat.max_le.1 h).2⟩

theorem head_escapedFrom (s : List Char) : (escapedFrom false 0 0 s).head? ≠ some '"' := by
  cases s with
  | nil => nofun
  | cons c s =>
    rw [escapedFrom]
    split
    · rw [if_neg (Nat.not_lt_zero _)]
      simp
    · next hc =>
      obtain ⟨heq, -⟩ | ⟨heq, -⟩ | ⟨d, w, heq, -⟩ := escaped_cases false c
      · simp [heq, hc]
      · simp [heq, hc]
      · simp [heq]

/-- Text is written between apostrophes only in a form that suits it. -/
theorem mark_formOf (s : List Char) :
    (formOf s).mark = '"' ∨ (formOf s).mark = '\'' ∧ (formOf s).suits s = true := by
  rw [formOf]
  cases hfind : forms.find? (·.suits s) with
  | none => exact .inl rfl
  | some f =>
    have hmarks : ∀ f ∈ forms, f.mark = '"' ∨ f.mark = '\'' := by decide
    have hsuits : f.suits s = true := by simpa using List.find?_some hfind
    exact (hmarks f (List.mem_of_find?_eq_some hfind)).imp id fun hmark => ⟨hmark, hsuits⟩

theorem of_suits {f : Form} (h : f.suits s = true) :
    (∀ c ∈ s, isPlain c = true ∨ c = '\n' ∧ f.multi = true) ∧
      longestRun f.mark 0 s ≤ if f.multi then 2 else 0 := by
  simp only [Form.suits, Bool.and_eq_true, List.all_eq_true, Bool.or_eq_true,
    decide_eq_true_eq] at h
  exact ⟨h.1.1, h.2⟩

/-- A text is read back from a form that suits it, and from any form between quotes. -/
theorem read_writeAs {f : Form} (hform : f.mark = '"' ∨ f.mark = '\'' ∧ f.suits s = true)
    (hrest : rest.head? ≠ some f.mark) :
    ∃ w, writeAs f s = f.mark :: w ∧ read f.mark (w ++ rest) = .ok (s, rest) := by
  have happend (mark : Char) (body : List Char) :
      mark :: mark :: ((if s.contains '\n' then ['\n'] else []) ++ body ++ [mark, mark, mark]) ++
        rest = mark :: mark :: ((if s.contains '\n' then ['\n'] else []) ++ body ++
          mark :: mark :: mark :: rest) := by
    simp
  obtain ⟨mark, multi⟩ := f
  obtain rfl | ⟨rfl, hsuits⟩ : mark = '"' ∨ mark = '\'' ∧ _ := hform
  · cases multi with
    | false =>
      refine ⟨escapedFrom false 0 0 s ++ ['"'], rfl, ?_⟩
      rw [List.append_assoc]
      exact read_of_single (readSingle_escapedFrom s rest 0) (head_escapedFrom s) hrest
    | true =>
      refine ⟨_, rfl, (congrArg _ (happend _ _)).trans ?_⟩
      exact read_of_written (written_escapedFrom s (Nat.zero_le _)) (by decide) hrest
  · obtain ⟨hall, hrun⟩ := of_suits hsuits
    cases multi with
    | false =>
      have hnone := not_mem_of_longestRun hrun
      have hplain : ∀ c ∈ s, isPlain c = true := fun c hc => by simpa using hall c hc
      refine ⟨s ++ ['\''], rfl, ?_⟩
      rw [List.append_assoc]
      refine read_of_single (readSingle_literal hplain hnone (by decide)) ?_ hrest
      exact fun hhead => hnone (List.mem_of_head? hhead)
    | true =>
      refine ⟨_, rfl, (congrArg _ (happend _ _)).trans ?_⟩
      exact read_of_written (written_literal (by decide) (by decide)
        (fun c hc => (hall c hc).imp id And.left) hrun) (by decide) hrest

/-- **A written string is read back.** -/
theorem read_write (s : List Char) (hrest : rest.head? ≠ some '"' ∧ rest.head? ≠ some '\'') :
    ∃ mark w, (mark = '"' ∨ mark = '\'') ∧ write s = mark :: w ∧
      read mark (w ++ rest) = .ok (s, rest) := by
  have hmark := mark_formOf s
  have hform : (formOf s).mark = '"' ∨ (formOf s).mark = '\'' := hmark.imp id And.left
  have hrest' : rest.head? ≠ some (formOf s).mark := by
    rcases hform with h | h
    · exact h ▸ hrest.1
    · exact h ▸ hrest.2
  obtain ⟨w, hw, hread⟩ := read_writeAs hmark hrest'
  exact ⟨_, w, hform, hw, hread⟩

end Toml.Quoted

end WorkspaceWatch
