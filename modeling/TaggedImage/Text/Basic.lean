/-!
# Columns, digits and bytes as text

Fills a text up to a number of characters, writes numbers in base 16, and reads bytes as text.
`decodeLossy` reads bytes as UTF-8. Well-formed bytes give their text; in others each maximal part
of a character that breaks off, and each byte that cannot start a character, is read as U+FFFD.
-/

namespace TaggedImage

namespace Text

/-- The text with blanks before it, up to `width` characters. -/
def alignRight (width : Nat) (s : String) : String := String.ofList (s.toList.leftpad width ' ')

/-- The text with blanks after it, up to `width` characters. -/
def alignLeft (width : Nat) (s : String) : String := String.ofList (s.toList.rightpad width ' ')

/-- The base-16 digits of `n` in lower case. -/
def hexDigits (n : Nat) : List Char := Nat.toDigits 16 n

/-- The base-16 digits of `n` in upper case, at least `width` of them. -/
def hexUpper (width n : Nat) : String :=
  String.ofList (((hexDigits n).map Char.toUpper).leftpad width '0')

/-- The character read in place of bytes that are none. -/
def replacement : Char := '\uFFFD'

/-- For a byte that starts a character of several bytes: the range of the byte after it and the
number of bytes that follow. -/
def following? (lead : UInt8) : Option (UInt8 × UInt8 × Nat) :=
  if lead < 0xC2 then none
  else if lead ≤ 0xDF then some (0x80, 0xBF, 1)
  else if lead = 0xE0 then some (0xA0, 0xBF, 2)
  else if lead = 0xED then some (0x80, 0x9F, 2)
  else if lead ≤ 0xEF then some (0x80, 0xBF, 2)
  else if lead = 0xF0 then some (0x90, 0xBF, 3)
  else if lead ≤ 0xF3 then some (0x80, 0xBF, 3)
  else if lead = 0xF4 then some (0x80, 0x8F, 3)
  else none

/-- The bytes, at most `n`, that continue a character, the first of them in the given range. -/
def continuation (low high : UInt8) : (n : Nat) → List UInt8 → List UInt8
  | 0, _ | _, [] => []
  | n + 1, b :: bs => if low ≤ b ∧ b ≤ high then b :: continuation 0x80 0xBF n bs else []

/-- The number that a first byte and the `n` bytes after it stand for. -/
def codePoint (lead : UInt8) (n : Nat) (rest : List UInt8) : Nat :=
  rest.foldl (fun acc b => acc * 64 + b.toNat % 64) (lead.toNat % (1 <<< (6 - n)))

/-- Reads the bytes from the left, `done` being the characters read so far, the last one first. -/
def replaceInvalid (done : List Char) (bytes : List UInt8) : List Char :=
  match bytes with
  | [] => done.reverse
  | lead :: rest =>
    if lead < 0x80 then replaceInvalid (Char.ofNat lead.toNat :: done) rest
    else
      match following? lead with
      | none => replaceInvalid (replacement :: done) rest
      | some (low, high, n) =>
        let tail := continuation low high n rest
        let c := if tail.length = n then Char.ofNat (codePoint lead n tail) else replacement
        replaceInvalid (c :: done) (rest.drop tail.length)
termination_by bytes.length

/-- The text that the bytes stand for. -/
def decodeLossy (bytes : List UInt8) : String :=
  match String.fromUTF8? bytes.toByteArray with
  | some s => s
  | none => String.ofList (replaceInvalid [] bytes)

end Text

end TaggedImage
