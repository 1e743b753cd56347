import WorkspaceWatch.Number.Binary64

/-!
# Numerals

A number as a text spells it: sign, digits and power of ten. Nothing is rounded until a floating
point value is asked for, and `Numeral.toBinary64` says how that is computed.
-/

namespace WorkspaceWatch

/-- A number as its digits: sign, whole part, fraction (empty if it has none) and power of ten. -/
structure Numeral where
  negative : Bool
  whole : List Char
  fraction : List Char
  exponent? : Option Int
  deriving DecidableEq, Repr

namespace Numeral

/-- The numeral of a natural number. -/
def ofNat (n : Nat) : Numeral := ⟨false, Nat.toDigits 10 n, [], none⟩

/-- The numeral of an integer. -/
def ofInt (i : Int) : Numeral := ⟨i < 0, Nat.toDigits 10 i.natAbs, [], none⟩

/-- The text of a numeral. -/
def render (n : Numeral) : List Char :=
  (if n.negative then ['-'] else []) ++ n.whole ++
    (if n.fraction = [] then [] else '.' :: n.fraction) ++
    (match n.exponent? with
      | none => []
      | some e => 'e' :: (if e < 0 then ['-'] else []) ++ Nat.toDigits 10 e.natAbs)

/-- The number that decimal digits spell. -/
def digitsValue (ds : List Char) : Nat := ds.foldl (fun n d => 10 * n + (d.toNat - 48)) 0

/-- The significant digits that a number is computed from are the leading ones that fit in 64 bits,
and the power of ten makes up for whole digits that are left out. -/
def leadingDigits (whole fraction : List Char) : Nat × Int :=
  let rec take (n : Nat) : List Char → Nat × List Char
    | [] => (n, [])
    | d :: ds =>
      let n' := 10 * n + (d.toNat - 48)
      if n' < UInt64.size then take n' ds else (n, d :: ds)
  match take 0 whole with
  | (n, []) =>
    let (n', left) := take n fraction
    (n', -(fraction.length - left.length : Nat))
  | (n, left) => (n, left.length)

/-- The floating point value of a number: its leading digits, then scaled by powers of ten that are
themselves rounded. -/
def toBinary64 (n : Numeral) : Binary64 :=
  let (m, shift) := leadingDigits n.whole n.fraction
  let power := shift + n.exponent?.getD 0
  let scaled : Binary64 :=
    if m = 0 then .zero false
    else if power > 308 then .infinite false
    else if power ≥ 0 then (Binary64.ofNat m).mul (.ofDecimal false 1 power)
    else if power ≥ -308 then (Binary64.ofNat m).div (.ofDecimal false 1 (-power))
    else if power ≥ -616 then
      ((Binary64.ofNat m).div (.ofDecimal false 1 308)).div (.ofDecimal false 1 (-power - 308))
    else .zero false
  if n.negative then scaled.neg else scaled

/-- A number in the range of binary floating point. -/
def inRange (n : Numeral) : Bool :=
  (n.fraction = [] && n.exponent? = none && digitsValue n.whole < UInt64.size) ||
    !n.toBinary64.isInfinite

end Numeral

end WorkspaceWatch
