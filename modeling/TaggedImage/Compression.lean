/-!
# Compression schemes

The schemes that have a name, and the number of each in a file.
-/

namespace TaggedImage

/-- A compression scheme that has a name. -/
inductive Compression where
  | uncompressed
  | ccittRunLength
  | ccittGroup3
  | ccittGroup4
  | lzw
  | oldJpeg
  | jpeg
  | deflate
  | packBits
  | adobeDeflate
  | jpeg2000
  deriving DecidableEq, Inhabited

namespace Compression

/-- The scheme with this number. -/
def ofCode? : Nat → Option Compression
  | 1 => some uncompressed
  | 2 => some ccittRunLength
  | 3 => some ccittGroup3
  | 4 => some ccittGroup4
  | 5 => some lzw
  | 6 => some oldJpeg
  | 7 => some jpeg
  | 8 => some deflate
  | 32773 => some packBits
  | 32946 => some adobeDeflate
  | 33003 => some jpeg2000
  | _ => none

/-- The name of the scheme. -/
def name : Compression → String
  | uncompressed => "None"
  | ccittRunLength => "CCITT RLE"
  | ccittGroup3 => "CCITT Group 3"
  | ccittGroup4 => "CCITT Group 4"
  | lzw => "LZW"
  | oldJpeg => "Old JPEG"
  | jpeg => "JPEG"
  | deflate => "Deflate"
  | packBits => "PackBits"
  | adobeDeflate => "Adobe Deflate"
  | jpeg2000 => "JPEG 2000"

end Compression

end TaggedImage
