/-!
# Text as UTF-8 bytes

Names on disk are byte strings that need not be text. `Utf8.encode` writes characters as bytes;
`Utf8.pieces` cuts any bytes into characters and stretches of **junk**, where a stretch is the
longest run of bytes that starts some character but does not complete it (one byte if it starts
none). Both readings come from the pieces: `Utf8.decode?` accepts the bytes that hold no junk, and
`Utf8.decodeLossy` shows each stretch of junk as one replacement character.

Main statement: `bytes_pieces`, cutting loses nothing.
-/

namespace WorkspaceWatch

namespace Utf8

/-- The bytes of one character. -/
def encodeChar (c : Char) : List UInt8 :=
  let n := c.toNat
  if n < 0x80 then [n.toUInt8]
  else if n < 0x800 then [(0xC0 + n / 64).toUInt8, (0x80 + n % 64).toUInt8]
  else if n < 0x10000 then
    [(0xE0 + n / 4096).toUInt8, (0x80 + n / 64 % 64).toUInt8, (0x80 + n % 64).toUInt8]
  else
    [(0xF0 + n / 262144).toUInt8, (0x80 + n / 4096 % 64).toUInt8,
      (0x80 + n / 64 % 64).toUInt8, (0x80 + n % 64).toUInt8]

/-- The bytes of a text. -/
def encode (s : List Char) : List UInt8 := s.flatMap encodeChar

@[simp] theorem encode_nil : encode [] = [] := rfl

@[simp] theorem encode_cons (c : Char) (s : List Char) :
    encode (c :: s) = encodeChar c ++ encode s := rfl

/-- What the front of a byte string reads as: a character with the bytes it was read from, or
bytes that are part of no character. -/
inductive Piece where
  | char (c : Char) (bytes : List UInt8)
  | junk (bytes : List UInt8)
  deriving DecidableEq, Repr

namespace Piece

/-- The bytes a piece was read from. -/
def bytes : Piece → List UInt8
  | .char _ bs => bs
  | .junk bs => bs

/-- The character of a piece, if it is one. -/
def char? : Piece → Option Char
  | .char c _ => some c
  | .junk _ => none

/-- The character a reader is shown for a piece. -/
def shown : Piece → Char
  | .char c _ => c
  | .junk _ => '\uFFFD'

end Piece

/-- A byte that continues a character. -/
def isTail (b : UInt8) : Bool := 0x80 ≤ b && b ≤ 0xBF

/-- The byte `b` may stand second in a three-byte character that begins with `a`: overlong forms
and surrogates are excluded. -/
def second3 (a b : UInt8) : Bool :=
  if a = 0xE0 then 0xA0 ≤ b && b ≤ 0xBF
  else if a = 0xED then 0x80 ≤ b && b ≤ 0x9F
  else isTail b

/-- The byte `b` may stand second in a four-byte character that begins with `a`: overlong forms
and values past the last code point are excluded. -/
def second4 (a b : UInt8) : Bool :=
  if a = 0xF0 then 0x90 ≤ b && b ≤ 0xBF
  else if a = 0xF4 then 0x80 ≤ b && b ≤ 0x8F
  else isTail b

/-- The low six bits of a continuing byte. -/
def tailBits (b : UInt8) : Nat := b.toNat % 64

/-- Cuts bytes into characters and junk. -/
def pieces : List UInt8 → List Piece
  | [] => []
  | a :: r =>
    if a < 0x80 then .char (Char.ofNat a.toNat) [a] :: pieces r
    else if 0xC2 ≤ a && a ≤ 0xDF then
      match r with
      | b :: r' =>
        if isTail b then
          .char (Char.ofNat (a.toNat % 32 * 64 + tailBits b)) [a, b] :: pieces r'
        else .junk [a] :: pieces (b :: r')
      | [] => [.junk [a]]
    else if 0xE0 ≤ a && a ≤ 0xEF then
      match r with
      | b :: r' =>
        if second3 a b then
          match r' with
          | c :: r'' =>
            if isTail c then
              .char (Char.ofNat (a.toNat % 16 * 4096 + tailBits b * 64 + tailBits c)) [a, b, c]
                :: pieces r''
            else .junk [a, b] :: pieces (c :: r'')
          | [] => [.junk [a, b]]
        else .junk [a] :: pieces (b :: r')
      | [] => [.junk [a]]
    else if 0xF0 ≤ a && a ≤ 0xF4 then
      match r with
      | b :: r' =>
        if second4 a b then
          match r' with
          | c :: r'' =>
            if isTail c then
              match r'' with
              | d :: r''' =>
                if isTail d then
                  .char (Char.ofNat (a.toNat % 8 * 262144 + tailBits b * 4096
                    + tailBits c * 64 + tailBits d)) [a, b, c, d] :: pieces r'''
                else .junk [a, b, c] :: pieces (d :: r''')
              | [] => [.junk [a, b, c]]
            else .junk [a, b] :: pieces (c :: r'')
          | [] => [.junk [a, b]]
        else .junk [a] :: pieces (b :: r')
      | [] => [.junk [a]]
    else .junk [a] :: pieces r

/-- Cutting loses nothing: the bytes of the pieces, put together, are the bytes cut. -/
theorem bytes_pieces (bs : List UInt8) : (pieces bs).flatMap Piece.bytes = bs := by
  fun_induction pieces bs <;> simp_all [Piece.bytes]

/-- The text that the bytes encode, if they encode one. -/
def decode? (bs : List UInt8) : Option (List Char) := (pieces bs).mapM Piece.char?

/-- The text of the bytes, with a replacement character for each stretch of junk. -/
def decodeLossy (bs : List UInt8) : List Char := (pieces bs).map Piece.shown

end Utf8

end WorkspaceWatch
