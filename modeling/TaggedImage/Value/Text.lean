import TaggedImage.Decimal.Binary
import TaggedImage.Text.Basic
import TaggedImage.Text.Quoted
import TaggedImage.Value

/-!
# The text of values

A text value holds strings, each with a zero byte after it (`Value.strings?`). `Value.text` shows
the values of a field on one line; long lists are cut.
-/

namespace TaggedImage

namespace Value

/-- The runs between zero bytes. -/
def splitZeros (bytes : List UInt8) : List (List UInt8) :=
  bytes.foldr (fun b runs =>
    match runs with
    | [] => [[b]]
    | run :: runs => if b = 0 then [] :: run :: runs else (b :: run) :: runs) [[]]

/-- The bytes without one zero byte at the end. -/
def dropTerminator (bytes : List UInt8) : List UInt8 :=
  if bytes.getLast? = some 0 then bytes.dropLast else bytes

/-- The strings of a text. What follows the last zero byte is a string unless nothing does, and no
bytes are no strings. -/
def splitStrings (bytes : List UInt8) : List (List UInt8) :=
  if bytes.isEmpty then [] else splitZeros (dropTerminator bytes)

/-- The strings of a text value; bytes that are not well formed are replaced. -/
def strings? : Value → Option (List String)
  | ascii bytes => some ((splitStrings bytes.data.toList).map Text.decodeLossy)
  | _ => none

/-- The first string of a text value, if it is well formed. -/
def firstString? : Value → Option String
  | ascii bytes => do
    let first ← (splitStrings bytes.data.toList).head?
    String.fromUTF8? first.toByteArray
  | _ => none

/-- Lists longer than this are cut when they are shown. -/
def shownMax : Nat := 16

/-- The texts in a row, and their number if not all are shown. -/
def textOfList (texts : List String) : String :=
  let shown := " ".intercalate (texts.take shownMax)
  if shownMax < texts.length then s!"{shown} ... ({texts.length} values)" else shown

/-- Bytes as numbers, or only how many there are. -/
def textOfBytes (bytes : ByteArray) : String :=
  if shownMax < bytes.size then s!"<{bytes.size} bytes>"
  else textOfList (bytes.data.toList.map fun b => toString b.toNat)

/-- The texts of the shown values of a list, with empty ones in place of the others. -/
def texts (f : α → String) (values : List α) : List String :=
  (values.take shownMax).map f ++ List.replicate (values.length - shownMax) ""

/-- The values on one line. -/
def text (v : Value) : String :=
  match v with
  | ascii _ => textOfList (texts Text.quote (v.strings?.getD []))
  | byte bs | undefined bs => textOfBytes bs
  | short vs => textOfList (texts (toString ·.toNat) vs)
  | long vs | ifd vs => textOfList (texts (toString ·.toNat) vs)
  | long8 vs | ifd8 vs => textOfList (texts (toString ·.toNat) vs)
  | sbyte vs => textOfList (texts (toString ·.toInt) vs)
  | sshort vs => textOfList (texts (toString ·.toInt) vs)
  | slong vs => textOfList (texts (toString ·.toInt) vs)
  | slong8 vs => textOfList (texts (toString ·.toInt) vs)
  | rational vs => textOfList (texts (fun v => s!"{v.1.toNat}/{v.2.toNat}") vs)
  | srational vs => textOfList (texts (fun v => s!"{v.1.toInt}/{v.2.toInt}") vs)
  | float vs => textOfList (texts (Decimal.BinaryFormat.single.text ·.toNat) vs)
  | double vs => textOfList (texts (Decimal.BinaryFormat.double.text ·.toNat) vs)

end Value

end TaggedImage
