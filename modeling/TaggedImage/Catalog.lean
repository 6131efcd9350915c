import TaggedImage.Fault

/-!
# What is known of tags

A `Catalog` maps numbers of tags to descriptors: the name of the tag, the type its values usually
have and how many of them there should be. `Catalog.standard` holds the tags of the format; others
can be registered. The descriptors are kept by ascending number.
-/

namespace TaggedImage

/-- How many values a field should have. -/
inductive CountRule where
  /-- Exactly this many. -/
  | fixed (n : Nat)
  /-- Any number, also none. -/
  | any
  /-- One for each sample of a pixel. -/
  | perSample
  /-- Three for each number that a sample can hold. -/
  | palette
  /-- One for each strip or tile; the layout of the image checks it. -/
  | perUnit
  deriving DecidableEq, Inhabited

/-- The number of values that the rule asks for in a directory with this sample layout, if it asks
for one and it is a word. -/
def CountRule.resolve (rule : CountRule) (samples bits : Nat) : Option Nat :=
  match rule with
  | fixed n => some n
  | any | perUnit => none
  | perSample => some samples
  | palette => if bits < 32 then Word.mul? 3 (1 <<< bits) else none

/-- What is known of a tag. -/
structure Descriptor where
  /-- The number of the tag. -/
  id : TagId
  /-- The name shown. -/
  name : String
  /-- The type that the values usually have. -/
  type : FieldType
  /-- How many values there should be. -/
  count : CountRule
  deriving DecidableEq, Inhabited

/-- Whether the number of values is not given by the tag alone. -/
def Descriptor.hasVariableCount (d : Descriptor) : Bool :=
  match d.count with
  | .fixed _ => false
  | _ => true

/-- Descriptors of tags, by ascending number. -/
structure Catalog where
  /-- The descriptors. -/
  descriptors : List Descriptor
  deriving DecidableEq, Inhabited

namespace Catalog

open CountRule FieldType in
/-- The tags of the format and of its common extensions. -/
def standard : Catalog where
  descriptors := [
    ⟨254, "NewSubfileType", long, fixed 1⟩,
    ⟨255, "SubfileType", short, fixed 1⟩,
    ⟨256, "ImageWidth", long, fixed 1⟩,
    ⟨257, "ImageLength", long, fixed 1⟩,
    ⟨258, "BitsPerSample", short, perSample⟩,
    ⟨259, "Compression", short, fixed 1⟩,
    ⟨262, "PhotometricInterpretation", short, fixed 1⟩,
    ⟨263, "Threshholding", short, fixed 1⟩,
    ⟨266, "FillOrder", short, fixed 1⟩,
    ⟨269, "DocumentName", ascii, any⟩,
    ⟨270, "ImageDescription", ascii, any⟩,
    ⟨271, "Make", ascii, any⟩,
    ⟨272, "Model", ascii, any⟩,
    ⟨273, "StripOffsets", long, perUnit⟩,
    ⟨274, "Orientation", short, fixed 1⟩,
    ⟨277, "SamplesPerPixel", short, fixed 1⟩,
    ⟨278, "RowsPerStrip", long, fixed 1⟩,
    ⟨279, "StripByteCounts", long, perUnit⟩,
    ⟨280, "MinSampleValue", short, perSample⟩,
    ⟨281, "MaxSampleValue", short, perSample⟩,
    ⟨282, "XResolution", rational, fixed 1⟩,
    ⟨283, "YResolution", rational, fixed 1⟩,
    ⟨284, "PlanarConfiguration", short, fixed 1⟩,
    ⟨285, "PageName", ascii, any⟩,
    ⟨286, "XPosition", rational, fixed 1⟩,
    ⟨287, "YPosition", rational, fixed 1⟩,
    ⟨296, "ResolutionUnit", short, fixed 1⟩,
    ⟨297, "PageNumber", short, fixed 2⟩,
    ⟨305, "Software", ascii, any⟩,
    ⟨306, "DateTime", ascii, fixed 20⟩,
    ⟨315, "Artist", ascii, any⟩,
    ⟨316, "HostComputer", ascii, any⟩,
    ⟨317, "Predictor", short, fixed 1⟩,
    ⟨318, "WhitePoint", rational, fixed 2⟩,
    ⟨319, "PrimaryChromaticities", rational, fixed 6⟩,
    ⟨320, "ColorMap", short, palette⟩,
    ⟨321, "HalftoneHints", short, fixed 2⟩,
    ⟨322, "TileWidth", long, fixed 1⟩,
    ⟨323, "TileLength", long, fixed 1⟩,
    ⟨324, "TileOffsets", long, perUnit⟩,
    ⟨325, "TileByteCounts", long, perUnit⟩,
    ⟨330, "SubIFDs", ifd, any⟩,
    ⟨332, "InkSet", short, fixed 1⟩,
    ⟨338, "ExtraSamples", short, any⟩,
    ⟨339, "SampleFormat", short, perSample⟩,
    ⟨347, "JPEGTables", undefined, any⟩,
    ⟨529, "YCbCrCoefficients", rational, fixed 3⟩,
    ⟨530, "YCbCrSubSampling", short, fixed 2⟩,
    ⟨531, "YCbCrPositioning", short, fixed 1⟩,
    ⟨532, "ReferenceBlackWhite", rational, fixed 6⟩,
    ⟨700, "XMLPacket", byte, any⟩,
    ⟨32997, "ImageDepth", long, fixed 1⟩,
    ⟨32998, "TileDepth", long, fixed 1⟩,
    ⟨33432, "Copyright", ascii, any⟩,
    ⟨33723, "RichTIFFIPTC", undefined, any⟩,
    ⟨34377, "Photoshop", byte, any⟩,
    ⟨34665, "ExifIFD", ifd, fixed 1⟩,
    ⟨34675, "ICCProfile", undefined, any⟩,
    ⟨34853, "GPSIFD", ifd, fixed 1⟩,
    ⟨40965, "InteroperabilityIFD", ifd, fixed 1⟩]

/-- The number of tags known. -/
def size (c : Catalog) : Nat := c.descriptors.length

/-- The descriptor of a tag. -/
def get? (c : Catalog) (id : TagId) : Option Descriptor := c.descriptors.find? (·.id == id)

/-- The first descriptor whose name is the given one, the case of ASCII letters apart. -/
def find? (c : Catalog) (name : String) : Option Descriptor :=
  c.descriptors.find? fun d => d.name.map Char.toLower == name.map Char.toLower

/-- The name of a tag, or its number if nothing is known of it. -/
def nameOf (c : Catalog) (id : TagId) : String :=
  match c.get? id with
  | some d => d.name
  | none => s!"Tag {id}"

/-- The catalog with one descriptor more; a tag that is known already is refused. -/
def register (c : Catalog) (d : Descriptor) : Except Fault Catalog :=
  if (c.get? d.id).isSome then .error (.duplicateTag d.id)
  else
    let (below, above) := c.descriptors.span fun e => decide (e.id < d.id)
    .ok { descriptors := below ++ d :: above }

end Catalog

end TaggedImage
