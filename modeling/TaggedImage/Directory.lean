import Std.Data.TreeSet
import TaggedImage.Catalog
import TaggedImage.Entry
import TaggedImage.Header

/-!
# Directories

A directory is a count, a table of that many entries and the offset of the next directory.
`Directory.read` reads one. Of the records in its table it keeps, in their order, those that have a
type that is known and a tag that no record kept before has (`Directory.keep`). A strict reader
refuses tags that repeat or descend, and fields with another number of values than the catalog says
(`Directory.checkCounts`).
-/

namespace TaggedImage

/-- A directory. -/
structure Directory where
  /-- Where the directory starts. -/
  offset : Nat
  /-- The entries, in the order of the table. -/
  entries : List Entry
  /-- Where the next directory starts; zero if there is none. -/
  next : Nat
  /-- Whether the stream ends before the offset of the next directory does. -/
  nextCut : Bool
  deriving DecidableEq, Inhabited

namespace Directory

/-- The entry of a tag. -/
def get? (d : Directory) (tag : TagId) : Option Entry := d.entries.find? (·.tag == tag)

/-- The entries that hold offsets of sub-directories. -/
def subDirectoryEntries (d : Directory) : List Entry := d.entries.filter Entry.isSubDirectory

/-- Whether the image is made of tiles and not of strips. -/
def isTiled (d : Directory) : Bool :=
  (d.get? KnownTag.tileWidth.id).isSome || (d.get? KnownTag.tileOffsets.id).isSome

/-- A record of the table, before it is known whether it is an entry. -/
structure Record where
  /-- The tag. -/
  tag : TagId
  /-- The number that stands for the type. -/
  typeCode : Nat
  /-- The number of values. -/
  count : Nat
  /-- The bytes of the value field. -/
  raw : ByteArray

/-- The record that starts at `pos` in a table. -/
def Record.at (order : ByteOrder) (width : OffsetWidth) (table : ByteArray) (pos : Nat) :
    Record where
  tag := .ofNat (order.numberAt table pos 2)
  typeCode := order.numberAt table (pos + 2) 2
  count := order.numberAt table (pos + 4) width.offsetSize
  raw := table.extract (pos + 4 + width.offsetSize) (pos + width.entrySize)

/-- The records of a table. -/
def records (order : ByteOrder) (width : OffsetWidth) (table : ByteArray) (n : Nat) :
    List Record :=
  Bytes.chunks (Record.at order width table) 0 width.entrySize n

/-- The entries kept so far. -/
structure Kept where
  /-- The entries, the last one first. -/
  entries : List Entry := []
  /-- Their tags. -/
  tags : Std.TreeSet TagId := {}

/-- Takes a record as an entry of the given type, unless its values lie outside a stream of
`size` bytes. -/
def Record.toEntry (order : ByteOrder) (width : OffsetWidth) (size : Nat) (r : Record)
    (type : FieldType) : Except Defect Entry :=
  match type.size? r.count with
  | none => .error (.sizeOverflow r.tag)
  | some valueSize =>
    let e : Entry := ⟨r.tag, type, r.count, r.raw, decide (valueSize ≤ width.inlineSize)⟩
    if !e.isInline && size < e.offset order + valueSize then
      .error (.valueOutside r.tag valueSize (e.offset order))
    else .ok e

/-- Keeps a record or skips it. -/
def keep (order : ByteOrder) (width : OffsetWidth) (strict : Bool) (size : Nat) (kept : Kept)
    (r : Record) : Except Defect Kept :=
  match FieldType.ofCode? r.typeCode with
  | none => .ok kept
  | some type =>
    if kept.tags.contains r.tag then
      if strict then .error (.repeatedTag r.tag) else .ok kept
    else
      match strict, kept.entries.head? with
      | true, some before =>
        if r.tag < before.tag then .error (.unsortedTag r.tag before.tag) else add type
      | _, _ => add type
where
  /-- The record as one entry more. -/
  add (type : FieldType) : Except Defect Kept := do
    let e ← r.toEntry order width size type
    return ⟨e :: kept.entries, kept.tags.insert r.tag⟩

/-- The entries of a table. -/
def keepAll (order : ByteOrder) (width : OffsetWidth) (strict : Bool) (size : Nat)
    (rs : List Record) : Except Defect (List Entry) := do
  let kept ← rs.foldlM (keep order width strict size) {}
  return kept.entries.reverse

/-- The number of samples of a pixel, as far as the directory itself holds it. -/
def samples (d : Directory) (order : ByteOrder) : Nat :=
  ((d.get? KnownTag.samplesPerPixel.id).bind (·.inlineUnsigned? order)).getD 1

/-- The number of bits of the first sample, as far as the directory itself holds it. -/
def bits (d : Directory) (order : ByteOrder) : Nat :=
  match d.get? KnownTag.bitsPerSample.id with
  | none => 1
  | some e =>
    match e.inlineBytes, e.type with
    | .ok (some bytes), .short => if 2 ≤ bytes.size then order.numberAt bytes 0 2 else 1
    | .ok (some bytes), .long => if 4 ≤ bytes.size then order.numberAt bytes 0 4 else 1
    | _, _ => 1

/-- What is wrong with the number of values of an entry. -/
def countDefect? (catalog : Catalog) (samples bits : Nat) (e : Entry) : Option Defect := do
  let descriptor ← catalog.get? e.tag
  let expected ← descriptor.count.resolve samples bits
  if e.count = expected then none else some (.wrongCount descriptor.name expected e.count)

/-- Refuses the first entry that has another number of values than the catalog says. -/
def checkCounts (d : Directory) (order : ByteOrder) (catalog : Catalog) : Except Fault Unit :=
  match d.entries.findSome? (countDefect? catalog (d.samples order) (d.bits order)) with
  | some defect => .error (.malformed d.offset defect)
  | none => .ok ()

variable {σ : Type} [Stream σ]

/-- The number that the `width` bytes at `offset` store. -/
def readNumber (order : ByteOrder) (offset width : Nat) : FileM σ Nat := do
  let bytes ← FileM.readExactAt offset width
  return order.decode bytes.data.toList

/-- The number of entries of the directory at `offset` in a stream of `size` bytes. -/
def readCount (header : Header) (limits : Limits) (size offset : Nat) : FileM σ Nat := do
  if offset < header.width.headerSize then throw (.malformed offset .overlapsHeader)
  if size < offset + header.width.countSize then
    throw (.truncated offset header.width.countSize (size - offset))
  let count ← readNumber header.order offset header.width.countSize
  if count = 0 then throw (.malformed offset .noEntries)
  if limits.fields < count then throw (.malformed offset (.tooManyEntries count limits.fields))
  return count

/-- The table of `count` entries at `start` in a stream of `size` bytes. -/
def readTable (header : Header) (limits : Limits) (size start count : Nat) : FileM σ ByteArray := do
  match Word.mul? count header.width.entrySize with
  | none => throw (.truncated start Word.max (size - start))
  | some len =>
    if size - start < len then throw (.truncated start len (size - start))
    let _ ← ({ limits := limits : Budget }).reserve len
    FileM.readExactAt start len

/-- The offset of the next directory, stored at `pos` in a stream of `size` bytes, and whether it is
cut off. Where it ends has to be a word, also in a stream that ends before it. -/
def readNext (header : Header) (size pos : Nat) : FileM σ (Nat × Bool) := do
  let stop ← FileM.sum pos header.width.offsetSize
  if stop ≤ size then return (← readNumber header.order pos header.width.offsetSize, false)
  else return (0, true)

/-- The directory at `offset`. -/
def read (header : Header) (options : Options) (catalog : Catalog) (offset : Nat) :
    FileM σ Directory := do
  let size ← FileM.size
  let count ← readCount header options.limits size offset
  let start := offset + header.width.countSize
  let table ← readTable header options.limits size start count
  let (next, nextCut) ← readNext header size (start + count * header.width.entrySize)
  let rs := records header.order header.width table count
  match keepAll header.order header.width options.strict size rs with
  | .error defect => throw (.malformed offset defect)
  | .ok entries =>
    let d : Directory := ⟨offset, entries, next, nextCut⟩
    if options.strict then d.checkCounts header.order catalog
    return d

end Directory

/-- Every field of a directory with what is known of its tag. -/
def Catalog.describe (c : Catalog) (d : Directory) : List (TagId × Option Descriptor) :=
  d.entries.map fun e => (e.tag, c.get? e.tag)

end TaggedImage
