import WorkspaceWatch.Json.Reader

/-!
# TOML strings

A string stands between quotes or between apostrophes, one of them on each side or, if it may span
lines, three. Between quotes a backslash begins an escape; between apostrophes every character
stands for itself. Of the control characters only the tab may be written as it is, and line ends
only in a string that may span lines, where they always count as line feeds and one right after the
opening marks does not count at all. There, one or two marks stand for themselves, also right before
the three that close the string.

`Quoted.read` reads a string in any of the four forms, and `Quoted.write` writes one in the first
form that suits it, or else between quotes with escapes. A tab between quotes is always escaped.
-/

namespace WorkspaceWatch

namespace Toml

/-- Why a text is not a TOML document. -/
inductive Fault where
  | malformed
  /-- A key or a table is given twice. -/
  | duplicate (key : String)
  /-- Something is defined within what is no table. -/
  | notTable (key : String)
  /-- Values or keys are nested too deeply. -/
  | tooDeep
  deriving DecidableEq, Repr

/-- What was read, and the text after it. -/
abbrev Reading (α : Type) := Except Fault (α × List Char)

namespace Quoted

/-- The character may be written as it is. -/
def isPlain (c : Char) : Bool := c = '\t' || (32 ≤ c.toNat && c.toNat ≠ 127)

/-- The text without the blanks at its front. -/
def skipBlank (s : List Char) : List Char := s.dropWhile fun c => c = ' ' || c = '\t'

theorem length_skipBlank_le (s : List Char) : (skipBlank s).length ≤ s.length :=
  (List.dropWhile_sublist _).length_le

/-- The text after a line end, if it starts with one. -/
def afterLineEnd? : List Char → Option (List Char)
  | '\n' :: s => some s
  | '\r' :: '\n' :: s => some s
  | _ => none

/-- The text without the blanks and line ends at its front. -/
def skipLines : List Char → List Char
  | ' ' :: s => skipLines s
  | '\t' :: s => skipLines s
  | '\n' :: s => skipLines s
  | '\r' :: '\n' :: s => skipLines s
  | s => s

/-! ### Reading -/

/-- The character with that number, if there is one. -/
def charOf? (n : Nat) : Option Char := if n.isValidChar then some (Char.ofNat n) else none

/-- The character that `digits` hexadecimal digits name, and how many characters they are. -/
def readHex (digits : Nat) (s : List Char) : Except Fault (Char × Nat) :=
  match (s.take digits).mapM Json.hexValue? with
  | some ds =>
    if ds.length = digits then
      match charOf? (ds.foldl (fun n d => n * 16 + d) 0) with
      | some c => .ok (c, digits)
      | none => .error .malformed
    else .error .malformed
  | none => .error .malformed

/-- The character of an escape, and how many characters of `s`, which follows the backslash, belong
to it. -/
def readEscape : List Char → Except Fault (Char × Nat)
  | '"' :: _ => .ok ('"', 1)
  | '\\' :: _ => .ok ('\\', 1)
  | 'b' :: _ => .ok ('\x08', 1)
  | 'f' :: _ => .ok ('\x0c', 1)
  | 'n' :: _ => .ok ('\n', 1)
  | 'r' :: _ => .ok ('\r', 1)
  | 't' :: _ => .ok ('\t', 1)
  | 'u' :: s => (readHex 4 s).map fun r => (r.1, r.2 + 1)
  | 'U' :: s => (readHex 8 s).map fun r => (r.1, r.2 + 1)
  | _ => .error .malformed

/-- The rest of a string on one line, up to the closing mark. -/
def readSingle (mark : Char) : List Char → Reading (List Char)
  | [] => .error .malformed
  | c :: s =>
    if c = mark then .ok ([], s)
    else if c = '\\' ∧ mark = '"' then
      match readEscape s with
      | .error e => .error e
      | .ok (d, n) => (readSingle mark (s.drop n)).map fun r => (d :: r.1, r.2)
    else if isPlain c then (readSingle mark s).map fun r => (c :: r.1, r.2)
    else .error .malformed
  termination_by s => s.length
  decreasing_by all_goals simp; try omega

theorem length_skipLines_le (s : List Char) : (skipLines s).length ≤ s.length := by
  fun_induction skipLines s <;> simp_all <;> omega

theorem length_afterLineEnd {s t : List Char} (h : afterLineEnd? s = some t) :
    t.length < s.length := by
  unfold afterLineEnd? at h
  split at h
  · cases h; exact Nat.lt_succ_self _
  · cases h; exact Nat.lt_succ_of_lt (Nat.lt_succ_self _)
  · cases h

/-- The text from which a string goes on after a backslash at the end of a line. -/
def afterFold? (s : List Char) : Option (List Char) :=
  (afterLineEnd? (skipBlank s)).map skipLines

theorem length_afterFold {s t : List Char} (h : afterFold? s = some t) :
    t.length < s.length := by
  unfold afterFold? at h
  obtain ⟨u, hu, rfl⟩ := Option.map_eq_some_iff.1 h
  have h1 := length_afterLineEnd hu
  have h2 := length_skipBlank_le s
  have h3 := length_skipLines_le u
  omega

/-- The marks that stand for themselves before the closing ones, and the text after all of them.
Three closing marks have been read. -/
def closing (mark : Char) (s : List Char) : List Char × List Char :=
  let extra := min 2 (s.takeWhile (· = mark)).length
  (List.replicate extra mark, s.drop extra)

/-- The rest of a string that may span lines, up to the closing marks. -/
def readMulti (mark : Char) : List Char → Reading (List Char)
  | [] => .error .malformed
  | c :: s =>
    if c = mark then
      if s.take 2 = [mark, mark] then .ok (closing mark (s.drop 2))
      else (readMulti mark s).map fun r => (c :: r.1, r.2)
    else if c = '\\' ∧ mark = '"' then
      match _h : afterFold? s with
      | some t => readMulti mark t
      | none =>
        match readEscape s with
        | .error e => .error e
        | .ok (d, n) => (readMulti mark (s.drop n)).map fun r => (d :: r.1, r.2)
    else if c = '\n' then (readMulti mark s).map fun r => ('\n' :: r.1, r.2)
    else if c = '\r' then
      match s with
      | '\n' :: s => (readMulti mark s).map fun r => ('\n' :: r.1, r.2)
      | _ => .error .malformed
    else if isPlain c then (readMulti mark s).map fun r => (c :: r.1, r.2)
    else .error .malformed
  termination_by s => s.length
  decreasing_by
    all_goals simp only [List.length_cons, List.length_drop]
    all_goals try omega
    have := length_afterFold _h
    omega

/-- A string of either kind of mark. The text follows its first mark. -/
def read (mark : Char) (s : List Char) : Reading (List Char) :=
  if s.take 2 = [mark, mark] then
    let s := s.drop 2
    readMulti mark ((afterLineEnd? s).getD s)
  else readSingle mark s

/-! ### Writing -/

/-- The hexadecimal digit of a number below sixteen, in upper case. -/
def upperHex (n : Nat) : Char := if n < 10 then Char.ofNat (48 + n) else Char.ofNat (55 + n)

/-- A character other than the quote, as it is written between quotes. -/
def escaped (multi : Bool) (c : Char) : List Char :=
  if c = '\x08' then ['\\', 'b']
  else if c = '\t' then ['\\', 't']
  else if c = '\n' then if multi then ['\n'] else ['\\', 'n']
  else if c = '\x0c' then ['\\', 'f']
  else if c = '\r' then ['\\', 'r']
  else if c = '\\' then ['\\', '\\']
  else if isPlain c then [c]
  else ['\\', 'u', '0', '0', upperHex (c.toNat / 16), upperHex (c.toNat % 16)]

/-- A text as it is written between quotes, after so many quotes that stand for themselves: one more
is escaped if that would be more than `allowed`. -/
def escapedFrom (multi : Bool) (allowed : Nat) : (run : Nat) → List Char → List Char
  | _, [] => []
  | run, c :: s =>
    if c = '"' then
      if run < allowed then '"' :: escapedFrom multi allowed (run + 1) s
      else '\\' :: '"' :: escapedFrom multi allowed 0 s
    else escaped multi c ++ escapedFrom multi allowed 0 s

/-- The length of the longest run of a character, where `run` of them stand before the text. -/
def longestRun (mark : Char) : (run : Nat) → List Char → Nat
  | run, [] => run
  | run, c :: s =>
    if c = mark then longestRun mark (run + 1) s else max run (longestRun mark 0 s)

/-- How a string is written. -/
structure Form where
  /-- The mark on each side. -/
  mark : Char
  /-- Whether it may span lines. -/
  multi : Bool
  deriving DecidableEq, Repr

/-- The text can be written in this form without escapes other than for tabs. -/
def Form.suits (f : Form) (s : List Char) : Bool :=
  s.all (fun c => isPlain c || (c = '\n' && f.multi)) &&
    (f.mark ≠ '"' || !s.contains '\\') &&
    longestRun f.mark 0 s ≤ if f.multi then 2 else 0

/-- The forms, the preferred first. -/
def forms : List Form := [⟨'"', false⟩, ⟨'\'', false⟩, ⟨'"', true⟩, ⟨'\'', true⟩]

/-- The form in which a text is written: the first that suits it, or else quotes. -/
def formOf (s : List Char) : Form :=
  (forms.find? (·.suits s)).getD ⟨'"', s.contains '\n'⟩

/-- A text in a form. -/
def writeAs (f : Form) (s : List Char) : List Char :=
  let marks := List.replicate (if f.multi then 3 else 1) f.mark
  let lead := if f.multi && s.contains '\n' then ['\n'] else []
  let body := if f.mark = '"' then escapedFrom f.multi (if f.multi then 2 else 0) 0 s else s
  marks ++ lead ++ body ++ marks

/-- A text as a TOML string. -/
def write (s : List Char) : List Char := writeAs (formOf s) s

end Quoted

end Toml

end WorkspaceWatch
