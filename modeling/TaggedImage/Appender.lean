import Std.Data.TreeSet
import TaggedImage.Entry
import TaggedImage.Header

/-!
# Writing files by appending

An `Appender` writes a file from its start to its end: runs of bytes (`Appender.blob`), directories
of the chain (`Appender.directory`) and directories that only a field refers to
(`Appender.subDirectory`). Everything is appended at an even offset. A directory of the chain is
linked by writing its offset over the one that ends the chain so far; nothing else is ever written
over.
-/

namespace TaggedImage

/-- A field that is to be written. -/
structure Field where
  /-- The tag. -/
  tag : TagId
  /-- The values. -/
  value : Value
  deriving DecidableEq, Inhabited

/-- A file that is being written. -/
structure Appender (σ : Type) where
  /-- The stream of the file. -/
  stream : σ
  /-- The header as it was written at the start. -/
  header : Header
  /-- Where the offset of the next directory of the chain is to be written. -/
  link : Nat
  /-- The number of directories of the chain. -/
  directories : Nat := 0

namespace Appender

variable {σ : Type}

/-- A new file. -/
def ofStream [Stream σ] (stream : σ) (order : ByteOrder) (width : OffsetWidth) :
    Except Fault (Appender σ) :=
  let header : Header := ⟨order, width, 0⟩
  match Channel.writeRange 0 header.encode.toByteArray stream with
  | .error e _ => .error (.stream e)
  | .ok () stream => .ok { stream, header, link := width.firstPointer }

/-- Writes `data` at `offset`. -/
def put [Stream σ] (offset : Nat) (data : ByteArray) : FileM (Appender σ) Unit :=
  fun ⟨stream, header, link, directories⟩ =>
    match Channel.writeRange offset data stream with
    | .ok () stream => .ok () ⟨stream, header, link, directories⟩
    | .error e stream => .error (.stream e) ⟨stream, header, link, directories⟩

/-- The size of the stream. -/
def size [Stream σ] : FileM (Appender σ) Nat := do return Channel.size (← get).stream

/-- The bytes of an offset or a count. -/
def encodeWord (header : Header) (n : Nat) : ByteArray :=
  (header.order.encode header.width.offsetSize n).toByteArray

/-- The end of the stream, after one byte of filling if it is odd. -/
def alignedEnd [Stream σ] : FileM (Appender σ) Nat := do
  let stop ← size
  if stop % 2 = 1 then
    put stop (Bytes.zeros 1)
    FileM.sum stop 1
  else return stop

/-- Refuses a region of `len` bytes at `offset` that offsets of this width cannot reach. -/
def checkReach (width : OffsetWidth) (offset len : Nat) : Except Fault Unit :=
  if width.maxOffset < offset + len then .error (.outOfRange offset len width.maxOffset) else .ok ()

/-- Appends bytes and answers where they start. -/
def blob [Stream σ] (data : ByteArray) : FileM (Appender σ) Nat := do
  let offset ← alignedEnd
  checkReach (← get).header.width offset data.size
  put offset data
  return offset

/-- The bytes, filled with zeros up to `size`. -/
def padTo (size : Nat) (bytes : ByteArray) : ByteArray := bytes ++ Bytes.zeros (size - bytes.size)

/-- The entry of a field. Values that the entry cannot hold itself are appended. -/
def entry [Stream σ] (field : Field) : FileM (Appender σ) ByteArray := do
  let header := (← get).header
  let type := field.value.type
  let count := field.value.count
  let bytes := field.value.encode header.order
  if header.width.maxOffset < count then
    throw (.invalidValue s!"tag {field.tag}" (.tooManyValues count))
  let head := (header.order.encode 2 field.tag.toNat ++ header.order.encode 2 type.code).toByteArray
    ++ encodeWord header count
  if type.fitsInline count header.width then return head ++ padTo header.width.inlineSize bytes
  else return head ++ encodeWord header (← blob bytes)

/-- The entries of the fields, after `table`. -/
def entries [Stream σ] (table : ByteArray) : List Field → FileM (Appender σ) ByteArray
  | [] => return table
  | field :: fields => do
    let e ← entry field
    entries (table ++ e) fields

/-- The first field whose tag a field before it has. -/
def firstRepeated? (seen : Std.TreeSet TagId) : List Field → Option Field
  | [] => none
  | field :: fields =>
    if seen.contains field.tag then some field
    else firstRepeated? (seen.insert field.tag) fields

/-- Refuses fields that make no directory. -/
def checkFields (fields : List Field) : Except Fault Unit :=
  if fields.isEmpty then .error (.invalidValue "directory" .noFields)
  else
    match firstRepeated? {} fields with
    | some field => .error (.duplicateTag field.tag)
    | none => .ok ()

/-- Refuses more fields than the entry count of this width can hold. -/
def checkFieldCount (width : OffsetWidth) (count : Nat) : Except Fault Unit :=
  if width = .narrow ∧ 65535 < count then .error (.invalidValue "directory" (.tooManyFields count))
  else .ok ()

/-- Appends the table of a directory, its fields by ascending tag, and answers where it starts. -/
def table [Stream σ] (fields : List Field) : FileM (Appender σ) Nat := do
  checkFields fields
  let header := (← get).header
  checkFieldCount header.width fields.length
  let sorted := fields.mergeSort fun a b => decide (a.tag ≤ b.tag)
  let count := (header.order.encode header.width.countSize fields.length).toByteArray
  let body ← entries count sorted
  let bytes := body ++ Bytes.zeros header.width.offsetSize
  let offset ← alignedEnd
  checkReach header.width offset bytes.size
  put offset bytes
  return offset

/-- Appends a directory, links it as the last of the chain, and answers where it starts. -/
def directory [Stream σ] (fields : List Field) : FileM (Appender σ) Nat := do
  let offset ← table fields
  let a ← get
  put a.link (encodeWord a.header offset)
  let width := a.header.width
  modify fun a =>
    { a with
      link := offset + width.countSize + fields.length * width.entrySize
      directories := a.directories + 1 }
  return offset

/-- Appends a directory that is not part of the chain, and answers where it starts. -/
def subDirectory [Stream σ] (fields : List Field) : FileM (Appender σ) Nat := table fields

end Appender

end TaggedImage
