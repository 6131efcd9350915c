import TaggedImage.ByteOrder
import TaggedImage.Fault

/-!
# Windows on a file, and its header

A `Window` is a run of bytes of a file together with where it starts there. Positions in a window
are relative to its start, faults tell positions in the file.

A file opens with the mark of its byte order, a version word that gives the width of its offsets,
and the offset of its first directory. `Header.parse` reads these, `Header.encode` writes them.
-/

namespace TaggedImage

/-- A run of bytes of a file. -/
structure Window where
  /-- The bytes. -/
  bytes : ByteArray
  /-- The byte order of the file. -/
  order : ByteOrder
  /-- Where the first of the bytes lies in the file. -/
  base : Nat

namespace Window

/-- The refusal of the `len` bytes at `offset`, unless their position in the file is no word. -/
def refusal (w : Window) (offset len : Nat) : Fault :=
  match Word.add? w.base offset with
  | some position => .truncated position len (w.bytes.size - offset)
  | none => .overflow

/-- The `len` bytes at `offset`. -/
def slice (w : Window) (offset len : Nat) : Except Fault ByteArray :=
  if offset + len ≤ w.bytes.size then .ok (w.bytes.extract offset (offset + len))
  else .error (w.refusal offset len)

/-- The number in the `width` bytes at `offset`. -/
def number (w : Window) (offset width : Nat) : Except Fault Nat := do
  let bytes ← w.slice offset width
  return w.order.decode bytes.data.toList

/-- The number in the `width` bytes at `offset`, whose highest bit counts negative. -/
def signed (w : Window) (offset width : Nat) : Except Fault Int := do
  return (← w.number offset width : Int).bmod (ByteOrder.capacity width)

/-- The offset at `offset`, for a file with offsets of this width. -/
def offset (w : Window) (offset : Nat) (width : OffsetWidth) : Except Fault Nat :=
  w.number offset width.offsetSize

/-- The entry count at `offset`, for a file with offsets of this width. -/
def entryCount (w : Window) (offset : Nat) (width : OffsetWidth) : Except Fault Nat :=
  w.number offset width.countSize

end Window

/-- What the header of a file says. -/
structure Header where
  /-- The byte order of all numbers. -/
  order : ByteOrder
  /-- The width of the offsets. -/
  width : OffsetWidth
  /-- The offset of the first directory; zero if there is none. -/
  first : Nat
  deriving DecidableEq, Inhabited

namespace Header

/-- The offset size that the header of a big file has to state. -/
def wideOffsetSize : Nat := 8

/-- The two bytes that open a file, as one number. -/
def magicOf (bytes : ByteArray) : Nat := ByteOrder.little.numberAt bytes 0 2

/-- The byte order whose mark reads as this number. -/
def orderOf? : Nat → Option ByteOrder
  | 0x4949 => some .little
  | 0x4D4D => some .big
  | _ => none

/-- Reads a header. The mark is looked at before anything else, and then the version, so that a file
of another kind is told from one that is too short. -/
def parse (bytes : ByteArray) : Except Fault Header := do
  if bytes.size < 2 then throw (.truncated 0 8 bytes.size)
  let magic := magicOf bytes
  match orderOf? magic with
  | none => throw (.unsupportedFormat (.ofNat magic) 0)
  | some order =>
    let window : Window := ⟨bytes, order, 0⟩
    let version ← window.number 2 2
    if version = OffsetWidth.narrow.version then
      if bytes.size < 8 then throw (.truncated 0 8 bytes.size)
      return ⟨order, .narrow, ← window.number 4 4⟩
    else if version = OffsetWidth.wide.version then
      if bytes.size < 16 then throw (.truncated 0 16 bytes.size)
      let offsetSize ← window.number 4 2
      if offsetSize ≠ wideOffsetSize then
        throw (.unsupportedFormat (.ofNat magic) (.ofNat version))
      return ⟨order, .wide, ← window.number 8 8⟩
    else throw (.unsupportedFormat (.ofNat magic) (.ofNat version))

/-- Reads a header and refuses one of a big file whose reserved word is not zero. -/
def parseStrict (bytes : ByteArray) : Except Fault Header := do
  let header ← parse bytes
  if header.width = .wide then
    let reserved ← Window.number ⟨bytes, header.order, 0⟩ 6 2
    if reserved ≠ 0 then throw (.unsupportedFormat (.ofNat (magicOf bytes)) 43)
  return header

/-- The bytes of the header. -/
def encode (h : Header) : List UInt8 :=
  h.order.mark ++ h.order.encode 2 h.width.version ++
    match h.width with
    | .narrow => h.order.encode 4 h.first
    | .wide => h.order.encode 2 wideOffsetSize ++ h.order.encode 2 0 ++ h.order.encode 8 h.first

end Header

end TaggedImage
