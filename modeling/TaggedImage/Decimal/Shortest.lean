/-!
# The shortest decimal of a binary fraction

A binary fraction of limited precision stands for an interval of numbers: those that round to it.
`shortest` gives, of all decimals in that interval, one with the fewest digits, and of these the one
nearest to the fraction; halfway between two it takes the larger. It tries one digit, two digits and
so on, and looks at the two neighbours of the fraction among the decimals with that many digits, by
exact arithmetic on natural numbers.
-/

namespace TaggedImage

namespace Decimal

/-- A positive fraction `value / scale` with the numbers that round to it. -/
structure Rounding where
  /-- The numerator of the lower end of the interval. -/
  low : Nat
  /-- The numerator of the fraction. -/
  value : Nat
  /-- The numerator of the upper end of the interval. -/
  high : Nat
  /-- The denominator of all three. -/
  scale : Nat
  /-- Whether the ends themselves round to the fraction. -/
  closed : Bool

/-- The fraction `mantissa * 2 ^ exponent` and the numbers that round to it when the next fraction
above is one unit away, and the next below one unit, or half of one if `halfBelow`. -/
def Rounding.ofBinary (mantissa : Nat) (exponent : Int) (halfBelow : Bool) : Rounding :=
  let up := 1 <<< (exponent - 2).toNat
  { low := (4 * mantissa - if halfBelow then 1 else 2) * up
    value := 4 * mantissa * up
    high := (4 * mantissa + 2) * up
    scale := 1 <<< (2 - exponent).toNat
    closed := mantissa % 2 = 0 }

/-- A decimal `digits * 10 ^ exponent`. -/
structure Shape where
  /-- The digits, as one number. -/
  digits : Nat
  /-- The power of ten. -/
  exponent : Int
  deriving DecidableEq, Inhabited

/-- The fraction on the grid of multiples of `10 ^ exponent`: all numerators and the denominator,
scaled so that one step of the grid is one denominator. -/
def Rounding.onGrid (r : Rounding) (exponent : Int) : Rounding :=
  let up := Nat.pow 10 (-exponent).toNat
  { r with
    low := r.low * up, value := r.value * up, high := r.high * up
    scale := r.scale * Nat.pow 10 exponent.toNat }

/-- Whether the number `n / 1` rounds to the fraction. -/
def Rounding.holds (r : Rounding) (n : Nat) : Bool :=
  let x := n * r.scale
  if r.closed then r.low ≤ x && x ≤ r.high else r.low < x && x < r.high

/-- Of the two whole numbers around the fraction the nearer one that rounds to it. -/
def Rounding.nearestWhole? (r : Rounding) : Option Nat :=
  let below := r.value / r.scale
  let above := below + 1
  match r.holds below, r.holds above with
  | true, true =>
    some (if above * r.scale - r.value ≤ r.value - below * r.scale then above else below)
  | true, false => some below
  | false, true => some above
  | false, false => none

/-- The number of the decimal digits of `n`; none for zero. -/
def digitCount (n : Nat) : Nat := if n = 0 then 0 else (Nat.toDigits 10 n).length

/-- The least `j`, from the given one on, with `value * 10 ^ j` at least `scale`. -/
def leadingZeros (value scale j : Nat) : (fuel : Nat) → Nat
  | 0 => j
  | fuel + 1 => if scale ≤ value * Nat.pow 10 j then j else leadingZeros value scale (j + 1) fuel

/-- The exponent `k` with the fraction at least `10 ^ (k - 1)` and below `10 ^ k`. -/
def Rounding.magnitude (r : Rounding) : Int :=
  if r.scale ≤ r.value then digitCount (r.value / r.scale)
  else 1 - (leadingZeros r.value r.scale 1 (digitCount r.scale) : Int)

/-- The decimals of `n` digits, of `n + 1` digits and so on, `fuel` lengths in all, up to the first
that rounds to the fraction. -/
def Rounding.search (r : Rounding) (n : Nat) : (fuel : Nat) → Option Shape
  | 0 => none
  | fuel + 1 =>
    let exponent := r.magnitude - n
    match (r.onGrid exponent).nearestWhole? with
    | some digits => some ⟨digits, exponent⟩
    | none => r.search (n + 1) fuel

/-- The shortest decimal that rounds to the fraction; no fraction of 53 bits needs more than 17
digits. -/
def shortest (r : Rounding) : Shape := (r.search 1 17).getD ⟨0, 0⟩

end Decimal

end TaggedImage
