import WorkspaceWatch.Number.Power

/-!
# Binary floating point with 53 bits

A number of the 64-bit binary format, kept as its sign, an integer of at most 53 bits and a power
of two. All of the arithmetic here is exact arithmetic on natural numbers followed by one rounding,
`Binary64.round`, to the nearest number of the format, a tie going to the even integer. The shortest
decimal text that reads back as a number is in `Binary64.text`.
-/

namespace WorkspaceWatch

/-- A number of the 64-bit binary format. A finite one is `± mantissa · 2 ^ exponent`. -/
inductive Binary64 where
  | finite (negative : Bool) (mantissa : Nat) (exponent : Int)
  | infinite (negative : Bool)
  | notANumber
  deriving DecidableEq, Repr

namespace Binary64

/-- The least power of two a finite number is written with. -/
def minExponent : Int := -1074

/-- The greatest power of two a finite number is written with. -/
def maxExponent : Int := 971

/-- Zero with a sign. -/
def zero (negative : Bool) : Binary64 := .finite negative 0 minExponent

/-- The quotient of `num · 2 ^ (-e)` by `den`, rounded to nearest, a tie to even. -/
def roundedQuotient (num den : Nat) (e : Int) : Nat :=
  let n := if e < 0 then num <<< (-e).toNat else num
  let d := if e < 0 then den else den <<< e.toNat
  let q := n / d
  let r := n % d
  if 2 * r > d ∨ (2 * r = d ∧ q % 2 = 1) then q + 1 else q

/-- The number nearest to the fraction `num / den`. -/
def round (negative : Bool) (num den : Nat) : Binary64 :=
  if num = 0 then zero negative
  else
    let guess : Int := (num.log2 : Int) - (den.log2 : Int) - 53
    -- With this exponent the quotient has at least 53 bits and at most 54.
    let e : Int :=
      let n := if guess < 0 then num <<< (-guess).toNat else num
      let d := if guess < 0 then den else den <<< guess.toNat
      if n / d < twoTo 53 then guess else guess + 1
    let e := max e minExponent
    let m := roundedQuotient num den e
    let m' := if m = twoTo 53 then twoTo 52 else m
    let e' := if m = twoTo 53 then e + 1 else e
    if e' > maxExponent then .infinite negative else .finite negative m' e'

/-- The number nearest to `± digits · 10 ^ power`. Far outside the range of the format the answer is
known without looking at the digits. -/
def ofDecimal (negative : Bool) (digits : Nat) (power : Int) : Binary64 :=
  if digits = 0 then zero negative
  else
    let places : Int := (Nat.toDigits 10 digits).length
    if power + places > 310 then .infinite negative
    else if power + places < -326 then zero negative
    else if power < 0 then round negative digits (tenTo (-power).toNat)
    else round negative (digits * tenTo power.toNat) 1

/-- The number nearest to a natural number. -/
def ofNat (n : Nat) : Binary64 := round false n 1

/-- The product, rounded. -/
def mul : Binary64 → Binary64 → Binary64
  | .finite s m e, .finite s' m' e' =>
    let sign := s != s'
    let p := e + e'
    if p < 0 then round sign (m * m') (twoTo (-p).toNat) else round sign (m * m' * twoTo p.toNat) 1
  | .finite s m _, .infinite s' | .infinite s', .finite s m _ =>
    if m = 0 then .notANumber else .infinite (s != s')
  | .infinite s, .infinite s' => .infinite (s != s')
  | _, _ => .notANumber

/-- The quotient, rounded. -/
def div : Binary64 → Binary64 → Binary64
  | .finite s m e, .finite s' m' e' =>
    let sign := s != s'
    if m' = 0 then if m = 0 then .notANumber else .infinite sign
    else
      let p := e - e'
      if p < 0 then round sign m (m' * twoTo (-p).toNat) else round sign (m * twoTo p.toNat) m'
  | .finite s _ _, .infinite s' => zero (s != s')
  | .infinite s, .finite s' _ _ => .infinite (s != s')
  | _, _ => .notANumber

/-- The number is zero, of either sign. -/
def isZero : Binary64 → Bool
  | .finite _ m _ => m = 0
  | _ => false

/-- The number is infinite. -/
def isInfinite : Binary64 → Bool
  | .infinite _ => true
  | _ => false

/-- The number without its sign. -/
def abs : Binary64 → Binary64
  | .finite _ m e => .finite false m e
  | .infinite _ => .infinite false
  | .notANumber => .notANumber

/-- The number with the sign turned. -/
def neg : Binary64 → Binary64
  | .finite s m e => .finite (!s) m e
  | .infinite s => .infinite (!s)
  | .notANumber => .notANumber

/-- The nearest natural number, half a unit going up, cut off at zero and at `top`. What is not a
number counts as zero. -/
def toNatClamped (top : Nat) : Binary64 → Nat
  | .finite true _ _ => 0
  | .finite false m e =>
    if e < 0 then min top ((2 * m + twoTo (-e).toNat) / (2 * twoTo (-e).toNat))
    else min top (m <<< e.toNat)
  | .infinite true => 0
  | .infinite false => top
  | .notANumber => 0

/-! ### The shortest decimal -/

/-- The least `k` with `v < den · 10 ^ k`, for a fraction `v / den` that is not zero. -/
def decimalPlaces (v den : Nat) : Int :=
  let guess : Int := (Nat.toDigits 10 v).length - (Nat.toDigits 10 den).length
  let below : Bool :=
    if guess < 0 then v * tenTo (-guess).toNat < den else v < den * tenTo guess.toNat
  if below then guess else guess + 1

/-- The digits and power of ten of the shortest decimal between `low / den` and `high / den` (ends
included if `ends`), of those with as many digits the nearest to `v / den`. Seventeen digits always
suffice. -/
def shortestBetween (low v high den : Nat) (ends : Bool) : Nat × Int :=
  let places := decimalPlaces v den
  let attempt (k : Nat) : Option (Nat × Int) :=
    let power : Int := places - k
    -- Everything is compared in units of `10 ^ power / scale`.
    let scaled (x : Nat) : Nat := if power < 0 then x * tenTo (-power).toNat else x
    let unit : Nat := if power < 0 then den else den * tenTo power.toNat
    let inside (d : Nat) : Bool :=
      if ends then scaled low ≤ d * unit && d * unit ≤ scaled high
      else scaled low < d * unit && d * unit < scaled high
    let down := scaled v / unit
    let up := down + 1
    let preferUp : Bool :=
      let r := 2 * (scaled v % unit)
      r > unit || (r = unit && down % 2 = 1)
    match inside down, inside up with
    | true, true => some (if preferUp then up else down, power)
    | true, false => some (down, power)
    | false, true => some (up, power)
    | false, false => none
  ((List.range 17).findSome? fun i => attempt (i + 1)).getD (v / den, 0)

/-- The digits and power of ten of the shortest decimal that reads back as `m · 2 ^ e`. -/
def shortest (m : Nat) (e : Int) : Nat × Int :=
  -- Quarters of a unit make both ends of the interval whole.
  let p := e - 2
  let grow (x : Nat) : Nat := if p < 0 then x else x <<< p.toNat
  let den : Nat := if p < 0 then twoTo (-p).toNat else 1
  let low := if m = twoTo 52 ∧ e > minExponent then 4 * m - 1 else 4 * m - 2
  shortestBetween (grow low) (grow (4 * m)) (grow (4 * m + 2)) den (m % 2 = 0)

/-- A number written with all of its places, without a power of ten. -/
def positional (digits : Nat) (power : Int) : List Char :=
  let ds := Nat.toDigits 10 digits
  if power ≥ 0 then ds ++ List.replicate power.toNat '0'
  else
    let places := (-power).toNat
    let padded := List.replicate (places + 1 - ds.length) '0' ++ ds
    let whole := padded.take (padded.length - places)
    let fraction := ((padded.drop (padded.length - places)).reverse.dropWhile (· = '0')).reverse
    if fraction = [] then whole else whole ++ '.' :: fraction

/-- The shortest text that reads back as the number, without a power of ten. -/
def text : Binary64 → String
  | .notANumber => "NaN"
  | .infinite true => "-inf"
  | .infinite false => "inf"
  | .finite negative m e =>
    let digits := if m = 0 then ['0'] else let (d, p) := shortest m e; positional d p
    String.ofList ((if negative then ['-'] else []) ++ digits)

end Binary64

end WorkspaceWatch
