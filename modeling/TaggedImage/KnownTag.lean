import TaggedImage.Word

/-!
# The tags with a meaning of their own

`KnownTag` lists the tags that are more than shown: those that describe the layout of the image,
point at sub-directories or have a baseline default. `KnownTag.ofId?` undoes `KnownTag.id`.
-/

namespace TaggedImage

/-- A tag with a meaning of its own. -/
inductive KnownTag where
  | newSubfileType
  | imageWidth
  | imageLength
  | bitsPerSample
  | compression
  | photometricInterpretation
  | fillOrder
  | imageDescription
  | stripOffsets
  | orientation
  | samplesPerPixel
  | rowsPerStrip
  | stripByteCounts
  | xResolution
  | yResolution
  | planarConfiguration
  | resolutionUnit
  | predictor
  | colorMap
  | tileWidth
  | tileLength
  | tileOffsets
  | tileByteCounts
  | subDirectories
  | sampleFormat
  | imageDepth
  | tileDepth
  | exifDirectory
  | gpsDirectory
  | interoperabilityDirectory
  deriving DecidableEq, Inhabited

namespace KnownTag

/-- All of them, by ascending number. -/
def all : List KnownTag :=
  [newSubfileType, imageWidth, imageLength, bitsPerSample, compression, photometricInterpretation,
    fillOrder, imageDescription, stripOffsets, orientation, samplesPerPixel, rowsPerStrip,
    stripByteCounts, xResolution, yResolution, planarConfiguration, resolutionUnit, predictor,
    colorMap, tileWidth, tileLength, tileOffsets, tileByteCounts, subDirectories, sampleFormat,
    imageDepth, tileDepth, exifDirectory, gpsDirectory, interoperabilityDirectory]

/-- The number of the tag. -/
def id : KnownTag → TagId
  | newSubfileType => 254
  | imageWidth => 256
  | imageLength => 257
  | bitsPerSample => 258
  | compression => 259
  | photometricInterpretation => 262
  | fillOrder => 266
  | imageDescription => 270
  | stripOffsets => 273
  | orientation => 274
  | samplesPerPixel => 277
  | rowsPerStrip => 278
  | stripByteCounts => 279
  | xResolution => 282
  | yResolution => 283
  | planarConfiguration => 284
  | resolutionUnit => 296
  | predictor => 317
  | colorMap => 320
  | tileWidth => 322
  | tileLength => 323
  | tileOffsets => 324
  | tileByteCounts => 325
  | subDirectories => 330
  | sampleFormat => 339
  | imageDepth => 32997
  | tileDepth => 32998
  | exifDirectory => 34665
  | gpsDirectory => 34853
  | interoperabilityDirectory => 40965

/-- What messages call the tag. -/
def label : KnownTag → String
  | newSubfileType => "NewSubfileType"
  | imageWidth => "ImageWidth"
  | imageLength => "ImageLength"
  | bitsPerSample => "BitsPerSample"
  | compression => "Compression"
  | photometricInterpretation => "PhotometricInterpretation"
  | fillOrder => "FillOrder"
  | imageDescription => "ImageDescription"
  | stripOffsets => "StripOffsets"
  | orientation => "Orientation"
  | samplesPerPixel => "SamplesPerPixel"
  | rowsPerStrip => "RowsPerStrip"
  | stripByteCounts => "StripByteCounts"
  | xResolution => "XResolution"
  | yResolution => "YResolution"
  | planarConfiguration => "PlanarConfiguration"
  | resolutionUnit => "ResolutionUnit"
  | predictor => "Predictor"
  | colorMap => "ColorMap"
  | tileWidth => "TileWidth"
  | tileLength => "TileLength"
  | tileOffsets => "TileOffsets"
  | tileByteCounts => "TileByteCounts"
  | subDirectories => "SubIfds"
  | sampleFormat => "SampleFormat"
  | imageDepth => "ImageDepth"
  | tileDepth => "TileDepth"
  | exifDirectory => "ExifIfd"
  | gpsDirectory => "GpsIfd"
  | interoperabilityDirectory => "InteroperabilityIfd"

/-- The tag with this number. -/
def ofId? (n : TagId) : Option KnownTag := all.find? (·.id == n)

/-- Whether the values of the tag are offsets of sub-directories. -/
def isPointer : KnownTag → Bool
  | subDirectories | exifDirectory | gpsDirectory | interoperabilityDirectory => true
  | _ => false

/-- The value of the tag in a directory that omits it. -/
def default? : KnownTag → Option Nat
  | newSubfileType => some 0
  | bitsPerSample => some 1
  | compression => some 1
  | fillOrder => some 1
  | orientation => some 1
  | samplesPerPixel => some 1
  | rowsPerStrip => some 4294967295
  | planarConfiguration => some 1
  | resolutionUnit => some 2
  | predictor => some 1
  | sampleFormat => some 1
  | imageDepth => some 1
  | tileDepth => some 1
  | _ => none

/-- A known tag is found by its number. -/
theorem ofId?_id (t : KnownTag) : ofId? t.id = some t := by cases t <;> decide

end KnownTag

end TaggedImage
