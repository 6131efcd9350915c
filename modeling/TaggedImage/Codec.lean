import TaggedImage.Fault

/-!
# Codecs and predictors

A unit is decoded in two steps: a codec, chosen by the compression scheme, expands the stored bytes,
and a predictor turns each row of differences back into samples. A `Codecs` value holds those that
are registered; by default these are the two that change nothing.
-/

namespace TaggedImage

/-- Expands the stored bytes of a unit to the given size. -/
abbrev Codec := (stored : ByteArray) → (size : Nat) → Except CodecError ByteArray

/-- Restores a row of a unit, given its pixels and the bytes from a sample to the same sample of the
next pixel. -/
abbrev Predictor := (row : ByteArray) → (pixels stride : Nat) → Except CodecError ByteArray

/-- Data that is stored as it is: bytes beyond the size are left out, missing ones are an error. -/
def Codec.identity : Codec := fun stored size =>
  if stored.size < size then .error (.sizeMismatch size stored.size)
  else .ok (stored.extract 0 size)

/-- Rows that are stored as they are. -/
def Predictor.identity : Predictor := fun row _ _ => .ok row

/-- The codecs and predictors that are registered, each under its number; numbers do not repeat. -/
structure Codecs where
  /-- The codecs, by the number of the compression scheme. -/
  codecs : List (UInt16 × Codec) := []
  /-- The predictors, by their number. -/
  predictors : List (UInt16 × Predictor) := []

namespace Codecs

/-- The list with the value under this number, in place of the one that was there. -/
def put {α : Type} (number : UInt16) (value : α) (list : List (UInt16 × α)) : List (UInt16 × α) :=
  let (below, rest) := list.span fun e => decide (e.1 < number)
  below ++ (number, value) :: rest.dropWhile fun e => e.1 == number

/-- Registers a codec; one registered before under the number is replaced. -/
def registerCodec (c : Codecs) (number : UInt16) (codec : Codec) : Codecs :=
  { c with codecs := put number codec c.codecs }

/-- Registers a predictor; one registered before under the number is replaced. -/
def registerPredictor (c : Codecs) (number : UInt16) (predictor : Predictor) : Codecs :=
  { c with predictors := put number predictor c.predictors }

/-- The codec and the predictor that change nothing, each under the number one. -/
def standard : Codecs :=
  ({ } : Codecs).registerCodec 1 .identity |>.registerPredictor 1 .identity

/-- The codec of a compression scheme. -/
def codec? (c : Codecs) (number : UInt16) : Option Codec := c.codecs.lookup number

/-- The predictor of this number. -/
def predictor? (c : Codecs) (number : UInt16) : Option Predictor := c.predictors.lookup number

/-- The numbers that are registered. -/
def text (c : Codecs) : String :=
  let list (ns : List UInt16) := ", ".intercalate (ns.map toString)
  "CodecRegistry \x7b codecs: [" ++ list (c.codecs.map (·.1)) ++ "], predictors: ["
    ++ list (c.predictors.map (·.1)) ++ "] \x7d"

end Codecs

end TaggedImage
