import TaggedImage.FileAccess
import TaggedImage.KnownTag
import TaggedImage.Value

/-!
# The entries of a directory

An `Entry` is one field of a directory as it is stored: its tag, the type and the number of its
values, and a value field that holds the values themselves or, if they do not fit, where they lie.
Values are read when they are asked for: all of them (`Entry.readValue`), the first as a natural
number (`Entry.readUnsigned`) or all as natural numbers (`Entry.readUnsignedList`).
-/

namespace TaggedImage

/-- One field of a directory as it is stored. -/
structure Entry where
  /-- The tag. -/
  tag : TagId
  /-- The type of the values. -/
  type : FieldType
  /-- The number of values. -/
  count : Nat
  /-- The bytes of the value field. -/
  raw : ByteArray
  /-- Whether the value field holds the values themselves. -/
  isInline : Bool
  deriving DecidableEq, Inhabited

namespace Entry

/-- What messages call the tag of the entry. -/
def label (e : Entry) : String := s!"tag {e.tag}"

/-- The number of bytes of the values, or the largest word if it is none. -/
def size (e : Entry) : Nat := (e.type.size? e.count).getD Word.max

/-- Where the values lie, if the value field does not hold them itself. -/
def offset (e : Entry) (order : ByteOrder) : Nat :=
  if e.raw.size = 4 ∨ e.raw.size = 8 then order.numberAt e.raw 0 e.raw.size else 0

/-- The bytes of the values, if the value field holds them itself. -/
def inlineBytes (e : Entry) : Except Fault (Option ByteArray) :=
  if !e.isInline then .ok none
  else if e.size ≤ e.raw.size then .ok (some (e.raw.extract 0 e.size))
  else .error (.invalidValue e.label (.shortInline e.size e.raw.size))

/-- The value, if it is a single unsigned integer that the value field holds itself. -/
def inlineUnsigned? (e : Entry) (order : ByteOrder) : Option Nat :=
  if e.count = 1 ∧ e.type.isUnsigned then
    match e.inlineBytes with
    | .ok (some bytes) => some (order.numberAt bytes 0 e.type.width)
    | _ => none
  else none

/-- Whether the values are offsets of sub-directories, by the type or by the tag. -/
def isSubDirectory (e : Entry) : Bool :=
  e.type.isPointer || (KnownTag.ofId? e.tag).any KnownTag.isPointer

/-- The unsigned integers of this type at the start of `bytes`, at most `count` of them. -/
def unsignedList (bytes : ByteArray) (count : Nat) (type : FieldType) (order : ByteOrder) :
    List Nat :=
  if type.isUnsigned then Value.words order bytes type.width (min (bytes.size / type.width) count)
  else []

variable {σ : Type} [Stream σ]

/-- The bytes of the values. -/
def readBytes (order : ByteOrder) (limits : Limits) (e : Entry) : FileM σ ByteArray := do
  match ← e.inlineBytes with
  | some bytes => return bytes
  | none =>
    limits.checkSingle e.size
    let offset := e.offset order
    let size ← FileM.size
    if size < offset + e.size then throw (.outOfRange offset e.size size)
    FileM.readExactAt offset e.size

/-- The values. -/
def readValue (order : ByteOrder) (limits : Limits) (e : Entry) : FileM σ Value := do
  let bytes ← e.readBytes order limits
  Value.decode bytes e.type e.count order (if e.isInline then 0 else e.offset order)

/-- The first value, which has to be an unsigned integer. No other is read. -/
def readUnsigned (order : ByteOrder) (limits : Limits) (e : Entry) : FileM σ Nat := do
  match e.inlineUnsigned? order with
  | some n => return n
  | none =>
    let fault : Fault := .invalidValue e.label (.notUnsigned e.type e.count)
    if !e.type.isUnsigned || e.count = 0 then throw fault
    let value ← { e with count := 1 }.readValue order limits
    match value.firstUnsigned? with
    | some n => return n
    | none => throw fault

/-- All values, which have to be unsigned integers. -/
def readUnsignedList (order : ByteOrder) (limits : Limits) (e : Entry) : FileM σ (List Nat) := do
  if !e.type.isUnsigned then throw (.invalidValue e.label (.notUnsignedList e.type))
  if e.count = 0 then return []
  let bytes ← e.readBytes order limits
  return unsignedList bytes e.count e.type order

end Entry

end TaggedImage
