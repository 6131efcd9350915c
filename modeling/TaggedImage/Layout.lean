import TaggedImage.Limits

/-!
# The layout of an image in units

The data of an image is stored in units: strips of some rows each, or tiles that cover a box of the
image. When samples are stored separately, each of them has a plane of units of its own, one plane
after the other. Tiles are numbered along the rows of a slice, slices follow each other, and the
tiles at the far edges stick out of the image; they are stored whole.

A `Layout` holds the numbers as the file states them. Dimensions that are zero or too large are
reported by the functions that need them, so that a file with bad dimensions can still be looked at.
`suggestStrips` gives strips of about 8 KiB for an image that is to be written, `roundTile` rounds
the edges of a tile up to what the format asks for.
-/

namespace TaggedImage

/-- How the data of an image is divided. -/
inductive UnitKind where
  | strips
  | tiles
  deriving DecidableEq, Inhabited

/-- What messages call the units. -/
def UnitKind.name : UnitKind → String
  | strips => "strips"
  | tiles => "tiles"

/-- How the samples of a pixel are stored. -/
inductive Planes where
  /-- All samples of a pixel lie together. -/
  | together
  /-- Each sample has a plane of its own. -/
  | separate
  deriving DecidableEq, Inhabited

/-- The arrangement that this number stands for. -/
def Planes.ofCode? : Nat → Option Planes
  | 1 => some together
  | 2 => some separate
  | _ => none

/-- The units of an image. -/
structure Layout where
  /-- Strips or tiles. -/
  kind : UnitKind
  /-- The width of the offsets of the file. -/
  offsetWidth : OffsetWidth
  /-- How the samples are stored. -/
  arrangement : Planes
  /-- The columns of the image. -/
  width : Nat
  /-- The rows of the image. -/
  height : Nat
  /-- The slices of the image. -/
  depth : Nat
  /-- The samples of a pixel. -/
  samples : Nat
  /-- The bits of a sample. -/
  bits : Nat
  /-- The rows of a strip, at most those of the image; zero for tiles. -/
  rowsPerStrip : Nat
  /-- The columns of a tile; zero for strips. -/
  tileWidth : Nat
  /-- The rows of a tile; zero for strips. -/
  tileLength : Nat
  /-- The slices of a tile; one for strips. -/
  tileDepth : Nat
  /-- The number of the compression scheme. -/
  compression : UInt16
  /-- The number of the predictor. -/
  predictor : UInt16
  /-- Where each unit starts. -/
  offsets : List Nat
  /-- The stored size of each unit. -/
  byteCounts : List Nat
  /-- The size of the stream. -/
  streamSize : Nat
  /-- The largest size allowed for the decoded image. -/
  maxTotal : Nat
  deriving DecidableEq, Inhabited

namespace Layout

/-- The fault for an index that is not below `bound`. -/
def indexOutOfRange (index bound : Nat) : Fault := .outOfRange index 1 bound

/-- The part of a unit within an axis of length `total`, for the unit at `position` among units of
length `unit`. -/
def extent (total unit position : Nat) : Nat := min (total - Word.mulSat position unit) unit

/-- The number of planes. -/
def planes (l : Layout) : Nat :=
  match l.arrangement with
  | .together => 1
  | .separate => l.samples

/-- The number of samples that a unit holds of each pixel. -/
def unitSamples (l : Layout) : Nat :=
  match l.arrangement with
  | .together => l.samples
  | .separate => 1

/-- The bytes of a sample, rounded up. -/
def bytesPerSample (l : Layout) : Nat := Word.divUp l.bits 8

/-! ## Numbers of units -/

/-- Refuses strips, and tiles with an edge of length zero. -/
def checkTiles (l : Layout) : Except Fault Unit :=
  if l.kind ≠ .tiles then .error (.geometry .stripped)
  else if l.tileWidth = 0 ∨ l.tileLength = 0 ∨ l.tileDepth = 0 then
    .error (.geometry (.zeroTile l.tileWidth l.tileLength l.tileDepth))
  else .ok ()

/-- The number of tiles along the columns, the rows and the slices. -/
def tilesAcross (l : Layout) : Except Fault (Nat × Nat × Nat) := do
  l.checkTiles
  return (Word.divUp l.width l.tileWidth, Word.divUp l.height l.tileLength,
    Word.divUp l.depth l.tileDepth)

/-- The number of strips of a plane. -/
def stripsPerPlane (l : Layout) : Except Fault Nat :=
  if l.rowsPerStrip = 0 then .error (.geometry .zeroRows)
  else .ok (Word.divUp l.height l.rowsPerStrip)

/-- The number of units of a plane. -/
def unitsPerPlane (l : Layout) : Except Fault Nat :=
  match l.kind with
  | .strips => l.stripsPerPlane
  | .tiles => do
    let (x, y, z) ← l.tilesAcross
    product "tile count" [x, y, z]

/-- The number of units of all planes. -/
def unitCount (l : Layout) : Except Fault Nat := do
  product "unit count" [← l.unitsPerPlane, l.planes]

/-! ## Sizes -/

/-- The bytes of a row of the image in one plane; samples are packed, and the row is rounded up. -/
def scanlineSize (l : Layout) : Except Fault Nat := do
  return Word.divUp (← product "scanline size" [l.width, l.unitSamples, l.bits]) 8

/-- The bytes of a whole strip. -/
def stripSize (l : Layout) : Except Fault Nat := do
  if l.kind ≠ .strips then throw (.geometry .tiled)
  product "strip size" [min l.rowsPerStrip l.height, ← l.scanlineSize]

/-- The bytes of a row of a tile. -/
def tileRowSize (l : Layout) : Except Fault Nat := do
  l.checkTiles
  return Word.divUp (← product "tile row size" [l.tileWidth, l.unitSamples, l.bits]) 8

/-- The bytes of a whole tile. -/
def tileSize (l : Layout) : Except Fault Nat := do
  if l.kind ≠ .tiles then throw (.geometry .stripped)
  product "tile size" [← l.tileRowSize, l.tileLength, l.tileDepth]

/-- The bytes of a row of a decoded unit. -/
def unitRowSize (l : Layout) : Except Fault Nat :=
  match l.kind with
  | .strips => l.scanlineSize
  | .tiles => l.tileRowSize

/-- The pixels of a row of a decoded unit. -/
def unitRowWidth (l : Layout) : Nat :=
  match l.kind with
  | .strips => l.width
  | .tiles => l.tileWidth

/-- The bytes from a sample of a decoded unit to the same sample of the next pixel. -/
def pixelStride (l : Layout) : Nat := Word.mulSat l.unitSamples l.bytesPerSample

/-- The bytes of the decoded image, which may not exceed the largest size allowed. -/
def imageSize (l : Layout) : Except Fault Nat := do
  let size ← product "image size" [l.width, l.height, l.depth, l.samples, l.bytesPerSample]
  if l.maxTotal < size then throw (.overLimit size l.maxTotal)
  return size

/-! ## Units by their number -/

/-- Refuses a number that no unit has; answers the number of units. -/
def checkIndex (l : Layout) (index : Nat) : Except Fault Nat := do
  let count ← l.unitCount
  if count ≤ index then throw (indexOutOfRange index count)
  return count

/-- The rows of the image that a strip holds. -/
def stripRows (l : Layout) (index : Nat) : Except Fault Nat := do
  if l.kind ≠ .strips then throw (.geometry .tiled)
  let _ ← l.checkIndex index
  return extent l.height l.rowsPerStrip (index % (← l.stripsPerPlane))

/-- The columns, rows and slices of the part of a tile that lies within the image. -/
def tileDimensions (l : Layout) (index : Nat) : Except Fault (Nat × Nat × Nat) := do
  let (across, down, _) ← l.tilesAcross
  let _ ← l.checkIndex index
  let inPlane := index % (← l.unitsPerPlane)
  return (extent l.width l.tileWidth (inPlane % across),
    extent l.height l.tileLength (inPlane / across % down),
    extent l.depth l.tileDepth (inPlane / (across * down)))

/-- The bytes of a decoded unit. The last strip of a plane may be shorter, tiles are always
whole. -/
def unitDecodedSize (l : Layout) (index : Nat) : Except Fault Nat :=
  match l.kind with
  | .strips => do
    let rows ← l.stripRows index
    product "strip size" [rows, ← l.scanlineSize]
  | .tiles => do
    let _ ← l.checkIndex index
    l.tileSize

/-- Where a unit is stored and how many bytes it has there; it has to lie within the stream. -/
def unitSpan (l : Layout) (index : Nat) : Except Fault (Nat × Nat) := do
  let count ← l.unitCount
  let held := min l.offsets.length l.byteCounts.length
  match l.offsets[index]?, l.byteCounts[index]? with
  | some offset, some length =>
    if count ≤ index then throw (indexOutOfRange index (min count held))
    else if l.offsetWidth = .narrow ∧ OffsetWidth.narrow.maxOffset < length then
      throw (.outOfRange offset length OffsetWidth.narrow.maxOffset)
    else if l.streamSize < offset + length then throw (.outOfRange offset length l.streamSize)
    else return (offset, length)
  | _, _ => throw (indexOutOfRange index (min count held))

/-- Where a unit is stored. -/
def unitOffset (l : Layout) (index : Nat) : Except Fault Nat := return (← l.unitSpan index).1

/-- The number of bytes that the table of a unit gives it. -/
def unitByteCount (l : Layout) (index : Nat) : Except Fault Nat := return (← l.unitSpan index).2

/-- The number of the unit that is `inPlane` in the plane of a sample. -/
def unitInPlane (l : Layout) (sample perPlane inPlane : Nat) : Except Fault Nat :=
  match l.arrangement with
  | .together => return inPlane
  | .separate => do
    if l.samples ≤ sample then throw (indexOutOfRange sample l.samples)
    sum "unit index" (← product "unit index" [sample, perPlane]) inPlane

/-- The strip that holds a row of a sample; the sample counts only if samples are separate. -/
def stripAt (l : Layout) (row sample : Nat) : Except Fault Nat := do
  let _ ← l.unitCount
  if l.height ≤ row then throw (indexOutOfRange row l.height)
  let perPlane ← l.stripsPerPlane
  l.unitInPlane sample perPlane (row / l.rowsPerStrip)

/-- The tile that holds a pixel of a sample; the sample counts only if samples are separate. -/
def tileAt (l : Layout) (x y z sample : Nat) : Except Fault Nat := do
  let (across, down, _) ← l.tilesAcross
  let perPlane ← l.unitsPerPlane
  let _ ← l.unitCount
  if l.width ≤ x then throw (indexOutOfRange x l.width)
  if l.height ≤ y then throw (indexOutOfRange y l.height)
  if l.depth ≤ z then throw (indexOutOfRange z l.depth)
  let row ← sum "tile index" (← product "tile index" [z / l.tileDepth, down]) (y / l.tileLength)
  let inPlane ← sum "tile index" (← product "tile index" [row, across]) (x / l.tileWidth)
  l.unitInPlane sample perPlane inPlane

/-! ## Units for an image that is to be written -/

/-- The size of a strip that is aimed at. -/
def stripBytes : Nat := 8192

/-- The edge of a tile for which none was asked for. -/
def tileEdge : Nat := 256

/-- The edges of tiles are multiples of this. -/
def tileStep : Nat := 16

/-- The rows of a strip for an image of these dimensions: as many as fit in the size aimed at, but
at least one and at most those of the image. -/
def suggestStrips (width height samples bits : Nat) : Except Fault Nat := do
  let scanline := Word.divUp (← product "scanline size" [width, samples, bits]) 8
  let rows := if scanline = 0 then 1 else max (stripBytes / scanline) 1
  return min rows (max height 1)

/-- The edge rounded up to a multiple of the step, as far as that is a word. -/
def roundEdge (edge : Nat) : Nat :=
  if edge = 0 then tileEdge else Word.mulSat (Word.divUp edge tileStep) tileStep

/-- The columns and rows of a tile, both rounded up. -/
def roundTile (width length : Nat) : Nat × Nat := (roundEdge width, roundEdge length)

/-- The tile for an image for which no other is asked for. -/
def suggestTile : Nat × Nat := roundTile tileEdge tileEdge

end Layout

end TaggedImage
