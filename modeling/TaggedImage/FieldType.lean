import TaggedImage.Word

/-!
# The types of fields

A `FieldType` says how each value of a field is stored. `FieldType.ofCode?` reads the code that an
entry holds; it undoes `FieldType.code` and refuses every other number (`ofCode?_eq_some_iff`).
-/

namespace TaggedImage

/-- How the values of a field are stored. -/
inductive FieldType where
  /-- Unsigned, 8 bits. -/
  | byte
  /-- Text whose strings each end in a zero byte. -/
  | ascii
  /-- Unsigned, 16 bits. -/
  | short
  /-- Unsigned, 32 bits. -/
  | long
  /-- Numerator and denominator, unsigned, 32 bits each. -/
  | rational
  /-- Signed, 8 bits. -/
  | sbyte
  /-- Bytes whose meaning the tag gives. -/
  | undefined
  /-- Signed, 16 bits. -/
  | sshort
  /-- Signed, 32 bits. -/
  | slong
  /-- Numerator and denominator, signed, 32 bits each. -/
  | srational
  /-- A binary fraction of 32 bits. -/
  | float
  /-- A binary fraction of 64 bits. -/
  | double
  /-- The offset of a sub-directory, 32 bits. -/
  | ifd
  /-- Unsigned, 64 bits. -/
  | long8
  /-- Signed, 64 bits. -/
  | slong8
  /-- The offset of a sub-directory, 64 bits. -/
  | ifd8
  deriving DecidableEq, Inhabited

namespace FieldType

/-- The number of bytes of one value. -/
def width : FieldType → Nat
  | byte | ascii | sbyte | undefined => 1
  | short | sshort => 2
  | long | slong | float | ifd => 4
  | rational | srational | double | long8 | slong8 | ifd8 => 8

/-- The number that stands for the type in an entry. -/
def code : FieldType → Nat
  | byte => 1
  | ascii => 2
  | short => 3
  | long => 4
  | rational => 5
  | sbyte => 6
  | undefined => 7
  | sshort => 8
  | slong => 9
  | srational => 10
  | float => 11
  | double => 12
  | ifd => 13
  | long8 => 16
  | slong8 => 17
  | ifd8 => 18

/-- The type with this code. -/
def ofCode? : Nat → Option FieldType
  | 1 => some byte
  | 2 => some ascii
  | 3 => some short
  | 4 => some long
  | 5 => some rational
  | 6 => some sbyte
  | 7 => some undefined
  | 8 => some sshort
  | 9 => some slong
  | 10 => some srational
  | 11 => some float
  | 12 => some double
  | 13 => some ifd
  | 16 => some long8
  | 17 => some slong8
  | 18 => some ifd8
  | _ => none

/-- The name of the type in listings. -/
def name : FieldType → String
  | byte => "byte"
  | ascii => "ascii"
  | short => "short"
  | long => "long"
  | rational => "rational"
  | sbyte => "sbyte"
  | undefined => "undefined"
  | sshort => "sshort"
  | slong => "slong"
  | srational => "srational"
  | float => "float"
  | double => "double"
  | ifd => "ifd"
  | long8 => "long8"
  | slong8 => "slong8"
  | ifd8 => "ifd8"

/-- Whether the values are offsets of sub-directories. -/
def isPointer : FieldType → Bool
  | ifd | ifd8 => true
  | _ => false

/-- Whether the values can be read as unsigned integers. -/
def isUnsigned : FieldType → Bool
  | byte | short | long | long8 | ifd | ifd8 => true
  | _ => false

/-- The number of bytes of `count` values, if it is a word. -/
def size? (t : FieldType) (count : Nat) : Option Nat := Word.mul? count t.width

/-- Whether an entry of this offset width holds `count` values itself. -/
def fitsInline (t : FieldType) (count : Nat) (w : OffsetWidth) : Bool :=
  match t.size? count with
  | some size => decide (size ≤ w.inlineSize)
  | none => false

/-- A type is found by its number. -/
theorem ofCode?_code (t : FieldType) : ofCode? t.code = some t := by cases t <;> rfl

/-- A type is found by its own number only. -/
theorem ofCode?_eq_some_iff {n : Nat} {t : FieldType} : ofCode? n = some t ↔ n = t.code := by
  constructor
  · intro h
    unfold ofCode? at h
    split at h <;> simp_all [code]
    all_goals subst h; rfl
  · rintro rfl
    exact ofCode?_code t

/-- Every value takes some bytes. -/
theorem width_pos (t : FieldType) : 0 < t.width := by cases t <;> decide

end FieldType

end TaggedImage
