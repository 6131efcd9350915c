import TaggedImage.ByteOrder
import TaggedImage.Header

/-!
# The values of a field

A `Value` holds all values of a field, decoded by their type. `Value.encode` writes them in a byte
order and `Value.decode` reads them back; reading fails only if bytes are missing. Binary fractions
are kept as their bits, text as its bytes.
-/

namespace TaggedImage

/-- The values of a field. -/
inductive Value where
  | byte (bytes : ByteArray)
  /-- One or more strings, each with a zero byte after it. -/
  | ascii (bytes : ByteArray)
  | short (values : List UInt16)
  | long (values : List UInt32)
  /-- Numerators and denominators. -/
  | rational (values : List (UInt32 × UInt32))
  | sbyte (values : List Int8)
  | undefined (bytes : ByteArray)
  | sshort (values : List Int16)
  | slong (values : List Int32)
  /-- Numerators and denominators. -/
  | srational (values : List (Int32 × Int32))
  /-- The bits of binary fractions. -/
  | float (bits : List UInt32)
  /-- The bits of binary fractions. -/
  | double (bits : List UInt64)
  | ifd (offsets : List UInt32)
  | long8 (values : List UInt64)
  | slong8 (values : List Int64)
  | ifd8 (offsets : List UInt64)
  deriving DecidableEq, Inhabited

namespace Value

/-- The type of the values. -/
def type : Value → FieldType
  | byte _ => .byte
  | ascii _ => .ascii
  | short _ => .short
  | long _ => .long
  | rational _ => .rational
  | sbyte _ => .sbyte
  | undefined _ => .undefined
  | sshort _ => .sshort
  | slong _ => .slong
  | srational _ => .srational
  | float _ => .float
  | double _ => .double
  | ifd _ => .ifd
  | long8 _ => .long8
  | slong8 _ => .slong8
  | ifd8 _ => .ifd8

/-- The number of values; of text, the number of its bytes. -/
def count : Value → Nat
  | byte bs | ascii bs | undefined bs => bs.size
  | short vs => vs.length
  | long vs | ifd vs | float vs => vs.length
  | rational vs => vs.length
  | sbyte vs => vs.length
  | sshort vs => vs.length
  | slong vs => vs.length
  | srational vs => vs.length
  | double vs | long8 vs | ifd8 vs => vs.length
  | slong8 vs => vs.length

/-- A text of one string. -/
def ofText (s : String) : Value := ascii (s.toUTF8.push 0)

/-- The numbers, each written with `width` bytes. -/
def encodeWords (order : ByteOrder) (width : Nat) (ns : List Nat) : ByteArray :=
  (ns.flatMap (order.encode width)).toByteArray

/-- The bytes of the values. -/
def encode (order : ByteOrder) : Value → ByteArray
  | byte bs | ascii bs | undefined bs => bs
  | sbyte vs => encodeWords order 1 (vs.map (·.toUInt8.toNat))
  | short vs => encodeWords order 2 (vs.map (·.toNat))
  | sshort vs => encodeWords order 2 (vs.map (·.toUInt16.toNat))
  | long vs | ifd vs | float vs => encodeWords order 4 (vs.map (·.toNat))
  | slong vs => encodeWords order 4 (vs.map (·.toUInt32.toNat))
  | rational vs => encodeWords order 4 (vs.flatMap fun v => [v.1.toNat, v.2.toNat])
  | srational vs =>
    encodeWords order 4 (vs.flatMap fun v => [v.1.toUInt32.toNat, v.2.toUInt32.toNat])
  | double vs | long8 vs | ifd8 vs => encodeWords order 8 (vs.map (·.toNat))
  | slong8 vs => encodeWords order 8 (vs.map (·.toUInt64.toNat))

/-- The first `n` words of `width` bytes each. -/
def words (order : ByteOrder) (bytes : ByteArray) (width n : Nat) : List Nat :=
  Bytes.chunks (order.numberAt bytes · width) 0 width n

/-- The first `n` pairs of words of four bytes each. -/
def wordPairs (order : ByteOrder) (bytes : ByteArray) (n : Nat) : List (Nat × Nat) :=
  Bytes.chunks (fun pos => (order.numberAt bytes pos 4, order.numberAt bytes (pos + 4) 4)) 0 8 n

/-- The first `n` values of this type; `bytes` holds that many. -/
def ofBytes (type : FieldType) (order : ByteOrder) (bytes : ByteArray) (n : Nat) : Value :=
  match type with
  | .byte => byte (bytes.extract 0 n)
  | .ascii => ascii (bytes.extract 0 n)
  | .undefined => undefined (bytes.extract 0 n)
  | .sbyte => sbyte ((words order bytes 1 n).map (UInt8.ofNat · |>.toInt8))
  | .short => short ((words order bytes 2 n).map UInt16.ofNat)
  | .sshort => sshort ((words order bytes 2 n).map (UInt16.ofNat · |>.toInt16))
  | .long => long ((words order bytes 4 n).map UInt32.ofNat)
  | .slong => slong ((words order bytes 4 n).map (UInt32.ofNat · |>.toInt32))
  | .ifd => ifd ((words order bytes 4 n).map UInt32.ofNat)
  | .float => float ((words order bytes 4 n).map UInt32.ofNat)
  | .rational => rational ((wordPairs order bytes n).map fun p => (.ofNat p.1, .ofNat p.2))
  | .srational =>
    srational ((wordPairs order bytes n).map fun p =>
      ((UInt32.ofNat p.1).toInt32, (UInt32.ofNat p.2).toInt32))
  | .double => double ((words order bytes 8 n).map UInt64.ofNat)
  | .long8 => long8 ((words order bytes 8 n).map UInt64.ofNat)
  | .slong8 => slong8 ((words order bytes 8 n).map (UInt64.ofNat · |>.toInt64))
  | .ifd8 => ifd8 ((words order bytes 8 n).map UInt64.ofNat)

/-- Reads `count` values of this type from the start of `bytes`, which lie at `base` in the file. -/
def decode (bytes : ByteArray) (type : FieldType) (count : Nat) (order : ByteOrder) (base : Nat) :
    Except Fault Value := do
  let _ ← Window.slice ⟨bytes, order, base⟩ 0 (Word.mulSat count type.width)
  return ofBytes type order bytes count

/-- The values as natural numbers, if they are unsigned integers. -/
def unsigned? : Value → Option (List Nat)
  | byte bs => some (bs.data.toList.map (·.toNat))
  | short vs => some (vs.map (·.toNat))
  | long vs | ifd vs => some (vs.map (·.toNat))
  | long8 vs | ifd8 vs => some (vs.map (·.toNat))
  | _ => none

/-- The first value, if it is an unsigned integer. -/
def firstUnsigned? : Value → Option Nat
  | byte bs => bs[0]?.map (·.toNat)
  | short vs => vs.head?.map (·.toNat)
  | long vs | ifd vs => vs.head?.map (·.toNat)
  | long8 vs | ifd8 vs => vs.head?.map (·.toNat)
  | _ => none

end Value

end TaggedImage
