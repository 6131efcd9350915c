/-!
# Words of 64 bits, and the two widths of offsets

Offsets, counts and sizes of a file are words of 64 bits, modelled by natural numbers: `Word.max` is
the largest of them, `add?` and `mul?` refuse a result above it, and `addSat` and `mulSat` stop
at it.

A classic file has offsets of 32 bits and a big one has offsets of 64 bits. `OffsetWidth` names the
two; all sizes that depend on the width are functions of it.
-/

namespace TaggedImage

namespace Word

/-- The largest 64-bit word. -/
def max : Nat := 18446744073709551615

/-- The sum, if it is a word. -/
def add? (a b : Nat) : Option Nat :=
  if a + b ≤ max then some (a + b) else none

/-- The product, if it is a word. -/
def mul? (a b : Nat) : Option Nat :=
  if a * b ≤ max then some (a * b) else none

/-- The sum, or the largest word if the sum is above it. -/
def addSat (a b : Nat) : Nat := min (a + b) max

/-- The product, or the largest word if the product is above it. -/
def mulSat (a b : Nat) : Nat := min (a * b) max

/-- The quotient rounded up. -/
def divUp (value divisor : Nat) : Nat :=
  value / divisor + if value % divisor = 0 then 0 else 1

/-- A sum that is a word is answered, exactly, and no other. -/
theorem add?_eq_some_iff {a b n : Nat} : add? a b = some n ↔ n = a + b ∧ a + b ≤ max := by
  grind [add?]

/-- A product that is a word is answered, exactly, and no other. -/
theorem mul?_eq_some_iff {a b n : Nat} : mul? a b = some n ↔ n = a * b ∧ a * b ≤ max := by
  grind [mul?]

end Word

/-- The number that names a field of a directory. -/
abbrev TagId := UInt16

/-- The width of the offsets of a file. -/
inductive OffsetWidth where
  /-- Offsets of 32 bits: a classic file. -/
  | narrow
  /-- Offsets of 64 bits: a big file. -/
  | wide
  deriving DecidableEq, Inhabited

namespace OffsetWidth

/-- The version word in the header of such a file. -/
def version : OffsetWidth → Nat
  | narrow => 42
  | wide => 43

/-- The size of the header. -/
def headerSize : OffsetWidth → Nat
  | narrow => 8
  | wide => 16

/-- The size of one entry of a directory. -/
def entrySize : OffsetWidth → Nat
  | narrow => 12
  | wide => 20

/-- The size of the entry count that opens a directory. -/
def countSize : OffsetWidth → Nat
  | narrow => 2
  | wide => 8

/-- The size of an offset, such as the one of the next directory that closes a directory. -/
def offsetSize : OffsetWidth → Nat
  | narrow => 4
  | wide => 8

/-- The largest number of value bytes that an entry holds itself. -/
def inlineSize (w : OffsetWidth) : Nat := w.offsetSize

/-- The largest offset or count of such a file. -/
def maxOffset : OffsetWidth → Nat
  | narrow => 4294967295
  | wide => 18446744073709551615

/-- Where the header holds the offset of the first directory. -/
def firstPointer : OffsetWidth → Nat
  | narrow => 4
  | wide => 8

end OffsetWidth

end TaggedImage
