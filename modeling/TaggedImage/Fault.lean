import TaggedImage.FieldType
import TaggedImage.Stream.Basic
import TaggedImage.Text.Basic

/-!
# What can go wrong with a file

`Fault` lists the causes for which a call on a file fails, with one type for each family of details:
`Defect` of a directory, `GeometryFlaw` of an image, `ValueFlaw` of a field and `CodecError` of a
stored unit. Each type has one function `message` that gives its text.

Positions are words, and a sum of words that is none ends the program where the sum is made. This is
no cause that a call answers: `Fault.stops` tells it from the others, and nothing catches it.
-/

namespace TaggedImage

/-- Why a codec or a predictor gave up. -/
inductive CodecError where
  /-- The decoded data has another size than it should have. -/
  | sizeMismatch (expected actual : Nat)
  /-- The stored data cannot be decoded. -/
  | corrupt (reason : String)
  /-- The parameters are not supported. -/
  | unsupported (reason : String)
  deriving DecidableEq, Inhabited

/-- The text of a codec error. -/
def CodecError.message : CodecError → String
  | sizeMismatch expected actual =>
    s!"Decoded size mismatch: expected {expected} bytes, got {actual}"
  | corrupt reason => s!"Corrupt input: {reason}"
  | unsupported reason => s!"Unsupported parameters: {reason}"

/-- What is wrong with a directory. -/
inductive Defect where
  /-- It starts within the header. -/
  | overlapsHeader
  /-- It has no entries. -/
  | noEntries
  /-- It has more entries than the limit allows. -/
  | tooManyEntries (count limit : Nat)
  /-- The tag occurs twice. -/
  | repeatedTag (tag : TagId)
  /-- The tag is below the one before it. -/
  | unsortedTag (tag before : TagId)
  /-- The values of the field have more bytes than a word can count. -/
  | sizeOverflow (tag : TagId)
  /-- The values of the field lie, in part, outside the stream. -/
  | valueOutside (tag : TagId) (size offset : Nat)
  /-- The field of this name has another number of values than it should have. -/
  | wrongCount (field : String) (expected actual : Nat)
  /-- The table of this name has another number of values than the image has strips or tiles. -/
  | wrongTableLength (field : String) (actual expected : Nat) (units : String)
  /-- Anything else, in words. -/
  | other (reason : String)
  deriving DecidableEq, Inhabited

/-- The text of a defect. -/
def Defect.message : Defect → String
  | overlapsHeader => "directory overlaps the file header"
  | noEntries => "directory has zero entries"
  | tooManyEntries count limit => s!"{count} entries exceeds the limit of {limit}"
  | repeatedTag tag => s!"duplicate tag {tag}"
  | unsortedTag tag before => s!"tag {tag} follows tag {before}, tags must be sorted"
  | sizeOverflow tag => s!"tag {tag}: value size overflows"
  | valueOutside tag size offset =>
    s!"tag {tag}: value of {size} bytes at offset {offset} lies outside the stream"
  | wrongCount field expected actual => s!"{field}: expected {expected} values, found {actual}"
  | wrongTableLength field actual expected units =>
    s!"{field} has {actual} values, the image has {expected} {units}"
  | other reason => reason

/-- What is wrong with the dimensions of an image. -/
inductive GeometryFlaw where
  /-- The quantity is no word. -/
  | overflow (quantity : String)
  /-- A strip has no rows. -/
  | zeroRows
  /-- A tile has an edge of length zero. -/
  | zeroTile (width length depth : Nat)
  /-- The image is made of strips, and tiles were asked for. -/
  | stripped
  /-- The image is made of tiles, and strips were asked for. -/
  | tiled
  /-- No directory was read yet. -/
  | noDirectory
  /-- Anything else, in words. -/
  | other (reason : String)
  deriving DecidableEq, Inhabited

/-- The text of a geometry flaw. -/
def GeometryFlaw.message : GeometryFlaw → String
  | overflow quantity => s!"{quantity} overflows 64 bits"
  | zeroRows => "RowsPerStrip is zero"
  | zeroTile width length depth => s!"zero tile dimension {width}x{length}x{depth}"
  | stripped => "directory is stripped"
  | tiled => "directory is tiled"
  | noDirectory => "no current directory"
  | other reason => reason

/-- What is wrong with the value of a field. -/
inductive ValueFlaw where
  /-- The entry claims to hold the value itself, and its value field is too short. -/
  | shortInline (needed held : Nat)
  /-- An unsigned integer was asked for. -/
  | notUnsigned (type : FieldType) (count : Nat)
  /-- A list of unsigned integers was asked for. -/
  | notUnsignedList (type : FieldType)
  /-- The number has no meaning for the tag. -/
  | unknownNumber (n : Nat)
  /-- A directory without fields cannot be written. -/
  | noFields
  /-- The number of fields does not fit the count of a classic directory. -/
  | tooManyFields (count : Nat)
  /-- The number of values does not fit the count of an entry. -/
  | tooManyValues (count : Nat)
  /-- Anything else, in words. -/
  | other (reason : String)
  deriving DecidableEq, Inhabited

/-- The text of a value flaw. -/
def ValueFlaw.message : ValueFlaw → String
  | shortInline needed held => s!"inline value needs {needed} bytes, entry holds {held}"
  | notUnsigned type count => s!"expected an unsigned integer, got {type.name} x{count}"
  | notUnsignedList type => s!"expected Short, Long, or Long8 for array, got {type.name}"
  | unknownNumber n => s!"unknown value {n}"
  | noFields => "a directory needs at least one field"
  | tooManyFields count => s!"{count} fields do not fit a classic directory"
  | tooManyValues count => s!"{count} values do not fit this addressing mode"
  | other reason => reason

/-- Why a call on a file failed. -/
inductive Fault where
  /-- The stream refused a call. -/
  | stream (error : StreamError)
  /-- Fewer bytes are there than have to be read. -/
  | truncated (offset required available : Nat)
  /-- The directory at `offset` has a defect. -/
  | malformed (offset : Nat) (defect : Defect)
  /-- A region does not lie within what it refers to. -/
  | outOfRange (offset length size : Nat)
  /-- A buffer would be larger than a limit allows. -/
  | overLimit (requested limit : Nat)
  /-- The first words of the file are none that can be read. -/
  | unsupportedFormat (magic version : UInt16)
  /-- The chain of directories comes back to an offset. -/
  | cycle (offset : Nat)
  /-- The dimensions of the image cannot be used. -/
  | geometry (flaw : GeometryFlaw)
  /-- A tag that is needed is not there. -/
  | missingTag (label : String)
  /-- The value of a tag cannot be used. -/
  | invalidValue (tag : String) (flaw : ValueFlaw)
  /-- The field does not hold offsets of sub-directories. -/
  | notSubDirectory (tag : TagId)
  /-- All jumps that were allowed have been made. -/
  | jumpLimit (limit : Nat)
  /-- The tag is there already. -/
  | duplicateTag (tag : TagId)
  /-- No codec is registered for the compression scheme. -/
  | unsupportedCompression (code : UInt16)
  /-- No predictor is registered for the number. -/
  | unsupportedPredictor (code : UInt16)
  /-- The codec or the predictor failed on a unit. -/
  | codec (unit : Nat) (error : CodecError)
  /-- A position is no word. No call answers this: the program stops. -/
  | overflow
  deriving DecidableEq, Inhabited

namespace Fault

/-- The text of a fault. -/
def message : Fault → String
  | stream error => s!"I/O error: {error.message}"
  | truncated offset required available =>
    s!"Truncated input: need {required} bytes at offset {offset}, only {available} available"
  | malformed offset defect => s!"Malformed directory at offset {offset}: {defect.message}"
  | outOfRange offset length size =>
    s!"Out of range reference: offset {offset}, length {length}, stream size {size}"
  | overLimit requested limit =>
    s!"Allocation limit exceeded: requested {requested} bytes, limit is {limit}"
  | unsupportedFormat magic version =>
    s!"Unsupported addressing mode: magic 0x{Text.hexUpper 4 magic.toNat}, version {version}"
  | cycle offset => s!"Directory chain cycle detected at offset {offset}"
  | geometry flaw => s!"Invalid geometry: {flaw.message}"
  | missingTag label => s!"Missing required tag: {label}"
  | invalidValue tag flaw => s!"Invalid tag value for {tag}: {flaw.message}"
  | notSubDirectory tag => s!"Tag {tag} does not reference a sub-directory"
  | jumpLimit limit => s!"Jump limit exceeded: {limit} explicit jumps allowed"
  | duplicateTag tag => s!"Tag {tag} is already registered"
  | unsupportedCompression code => s!"Unsupported compression: {code}"
  | unsupportedPredictor code => s!"Unsupported predictor: {code}"
  | codec unit error => s!"Codec error in unit {unit}: {error.message}"
  | overflow => "attempt to add with overflow"

/-- The fault with the tag of an invalid value renamed; other faults stay as they are. -/
def forTag (name : String) : Fault → Fault
  | invalidValue _ flaw => invalidValue name flaw
  | fault => fault

/-- Whether the program stops; the other faults are answers of the call that failed. -/
def stops : Fault → Bool
  | overflow | stream .overflow => true
  | _ => false

/-- Whether the file can still be used; only a format that cannot be read ends all work on it, if
the program goes on at all. -/
def isRecoverable : Fault → Bool
  | unsupportedFormat .. => false
  | fault => !fault.stops

end Fault

end TaggedImage
