import TaggedImage.Directory
import TaggedImage.Layout

/-!
# The layout that a directory describes

`Layout.resolve` reads the dimensions and the tables of units from the fields of a directory. Fields
that are not there have their baseline value, and tables that are not there are empty.
-/

namespace TaggedImage

namespace Layout

/-- The tags of the tables that hold the offsets and the sizes of the units. -/
def tableTags : UnitKind → KnownTag × KnownTag
  | .strips => (.stripOffsets, .stripByteCounts)
  | .tiles => (.tileOffsets, .tileByteCounts)

/-- Refuses tables with another number of values than there are units. Tables that are empty, and
images whose units cannot be counted, are left alone. -/
def checkTables (l : Layout) (offset : Nat) : Except Fault Unit :=
  match l.unitCount with
  | .error _ => .ok ()
  | .ok expected => do
    let check (tag : KnownTag) (actual : Nat) : Except Fault Unit :=
      if actual = 0 ∨ actual = expected then .ok ()
      else .error (.malformed offset (.wrongTableLength tag.label actual expected l.kind.name))
    check (tableTags l.kind).1 l.offsets.length
    check (tableTags l.kind).2 l.byteCounts.length

/-- The number as a word of 16 bits, or the largest such word. -/
def clamp16 (n : Nat) : UInt16 := .ofNat (min n 65535)

variable {σ : Type} [Stream σ]

/-- The first value of a tag, if the directory has the tag. -/
def field (order : ByteOrder) (limits : Limits) (d : Directory) (tag : KnownTag) :
    FileM σ (Option Nat) := do
  match d.get? tag.id with
  | none => return none
  | some e => return some (← (e.readUnsigned order limits).mapFault (·.forTag tag.label))

/-- The first value of a tag, or its baseline value. -/
def fieldOrDefault (order : ByteOrder) (limits : Limits) (d : Directory) (tag : KnownTag) :
    FileM σ Nat := do
  let value ← field order limits d tag
  return (value.or tag.default?).getD 1

/-- The first value of a tag that the directory has to have. -/
def fieldNeeded (order : ByteOrder) (limits : Limits) (d : Directory) (tag : KnownTag) :
    FileM σ Nat := do
  match ← field order limits d tag with
  | some n => return n
  | none => throw (.missingTag tag.label)

/-- The values of a table and what is left of the budget; eight bytes are counted for each. -/
def table (order : ByteOrder) (limits : Limits) (d : Directory) (tag : KnownTag)
    (budget : Budget) : FileM σ (List Nat × Budget) := do
  match d.get? tag.id with
  | none => return ([], budget)
  | some e =>
    let values ← e.readUnsignedList order limits
    return (values, ← budget.reserve (values.length * 8))

/-- The layout that a directory describes. -/
def resolve (header : Header) (options : Options) (d : Directory) : FileM σ Layout := do
  let order := header.order
  let limits := options.limits
  let width ← fieldNeeded order limits d .imageWidth
  let height ← fieldNeeded order limits d .imageLength
  let depth ← fieldOrDefault order limits d .imageDepth
  let samples ← fieldOrDefault order limits d .samplesPerPixel
  let bits ← fieldOrDefault order limits d .bitsPerSample
  let planes ← fieldOrDefault order limits d .planarConfiguration
  match Planes.ofCode? planes with
  | none =>
    throw (.invalidValue KnownTag.planarConfiguration.label (.unknownNumber planes))
  | some arrangement =>
    let compression ← fieldOrDefault order limits d .compression
    let predictor ← fieldOrDefault order limits d .predictor
    let kind := if d.isTiled then UnitKind.tiles else .strips
    let rowsPerStrip ←
      match kind with
      | .strips => do
        let rows ← fieldOrDefault order limits d .rowsPerStrip
        pure (min rows (max height 1))
      | .tiles => pure 0
    let (tileWidth, tileLength, tileDepth) ←
      match kind with
      | .strips => pure (0, 0, 1)
      | .tiles => do
        let w ← field order limits d .tileWidth
        let l ← field order limits d .tileLength
        let t ← fieldOrDefault order limits d .tileDepth
        pure (w.getD 0, l.getD 0, t)
    let (offsets, budget) ← table order limits d (tableTags kind).1 { limits := limits }
    let (byteCounts, _) ← table order limits d (tableTags kind).2 budget
    let layout : Layout :=
      { kind, offsetWidth := header.width, arrangement, width, height, depth, samples, bits
        rowsPerStrip, tileWidth, tileLength, tileDepth
        compression := clamp16 compression
        predictor := clamp16 predictor
        offsets, byteCounts
        streamSize := ← FileM.size
        maxTotal := limits.cumulative }
    if options.strict then layout.checkTables d.offset
    return layout

end Layout

end TaggedImage
