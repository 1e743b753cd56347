import WorkspaceWatch.Text.Utf8
import WorkspaceWatch.Text.Invisible

/-!
# Escaped text

A name shown between double quotes, so that every name is readable on one line and no two names
look alike. A backslash stands before a quote or a backslash; tab, line feed, carriage return and
NUL have letters; any other invisible character is spelled by its number in braces, and bytes that
are no text are spelled in hexadecimal, two digits each.
-/

namespace WorkspaceWatch

namespace Escaped

/-- The digits of a number in lower-case hexadecimal. -/
def hexDigits (n : Nat) : List Char := Nat.toDigits 16 n

/-- The two upper-case hexadecimal digits of a byte. -/
def hexByte (b : UInt8) : List Char :=
  let digit (n : Nat) : Char := if n < 10 then Char.ofNat (48 + n) else Char.ofNat (55 + n)
  [digit (b.toNat / 16), digit (b.toNat % 16)]

/-- One character as it is shown between double quotes. -/
def showChar (c : Char) : List Char :=
  match c with
  | '\x00' => ['\\', '0']
  | '\t' => ['\\', 't']
  | '\r' => ['\\', 'r']
  | '\n' => ['\\', 'n']
  | '"' => ['\\', '"']
  | '\\' => ['\\', '\\']
  | c => if isInvisible c then ['\\', 'u', '\x7b'] ++ hexDigits c.toNat ++ ['\x7d'] else [c]

/-- A piece of a byte string as it is shown between double quotes. -/
def showPiece : Utf8.Piece → List Char
  | .char c _ => showChar c
  | .junk bs => bs.flatMap fun b => '\\' :: 'x' :: hexByte b

/-- A text between double quotes. -/
def quote (s : String) : String :=
  String.ofList ('"' :: s.toList.flatMap showChar ++ ['"'])

/-- A byte string between double quotes. -/
def quoteBytes (bs : List UInt8) : String :=
  String.ofList ('"' :: (Utf8.pieces bs).flatMap showPiece ++ ['"'])

end Escaped

end WorkspaceWatch
