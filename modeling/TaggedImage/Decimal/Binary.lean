import TaggedImage.Decimal.Shortest

/-!
# The text of binary fractions

`BinaryFormat.text` writes a number given by the bits of a standard binary format: the fewest digits
that tell it from its neighbours, never with an exponent, and without a point if it is whole.
-/

namespace TaggedImage

namespace Decimal

/-- The decimal with a point and no exponent, and without zeros at the end of its fraction. -/
def positional (d : Shape) : String :=
  let digits := Nat.toDigits 10 d.digits
  if 0 ≤ d.exponent then String.ofList (digits ++ List.replicate d.exponent.toNat '0')
  else
    let places := (-d.exponent).toNat
    let padded := digits.leftpad (places + 1) '0'
    let whole := padded.take (padded.length - places)
    let fraction := ((padded.drop (padded.length - places)).reverse.dropWhile (· == '0')).reverse
    String.ofList (if fraction.isEmpty then whole else whole ++ '.' :: fraction)

/-- A binary format of numbers: a sign bit, an exponent and a fraction. -/
structure BinaryFormat where
  /-- The number of bits of the exponent. -/
  exponentBits : Nat
  /-- The number of bits of the fraction. -/
  fractionBits : Nat

namespace BinaryFormat

/-- The format of 32 bits. -/
def single : BinaryFormat := ⟨8, 23⟩

/-- The format of 64 bits. -/
def double : BinaryFormat := ⟨11, 52⟩

/-- The text of a positive number, its exponent and its fraction given. -/
def textOfFinite (f : BinaryFormat) (exponent fraction : Nat) : String :=
  let bias := (1 <<< (f.exponentBits - 1)) - 1
  let mantissa := if exponent = 0 then fraction else fraction + (1 <<< f.fractionBits)
  let unit : Int := (max exponent 1 : Int) - bias - f.fractionBits
  positional (shortest (.ofBinary mantissa unit (fraction = 0)))

/-- The text of the number with these bits. -/
def text (f : BinaryFormat) (bits : Nat) : String :=
  let fraction := bits % (1 <<< f.fractionBits)
  let exponent := (bits >>> f.fractionBits) % (1 <<< f.exponentBits)
  let sign := if (bits >>> (f.fractionBits + f.exponentBits)) % 2 = 1 then "-" else ""
  if exponent = (1 <<< f.exponentBits) - 1 then
    if fraction = 0 then sign ++ "inf" else "NaN"
  else if exponent = 0 ∧ fraction = 0 then sign ++ "0"
  else sign ++ f.textOfFinite exponent fraction

end BinaryFormat

end Decimal

end TaggedImage
