import TaggedImage.Fault
import TaggedImage.Word

/-!
# Limits on what a file can ask for

Every buffer whose size a file states is checked against `Limits` before it is made: alone
(`Limits.checkSingle`), or together with others of one scope (`Budget.reserve`). `product` and `sum`
compute with dimensions of a file and refuse a result that is no word.
-/

namespace TaggedImage

/-- What a file may ask for. -/
structure Limits where
  /-- The largest single buffer. -/
  single : Nat := 268435456
  /-- The largest total of the buffers of one scope. -/
  cumulative : Nat := 1073741824
  /-- The largest number of directories visited along the chain. -/
  directories : Nat := 65536
  /-- The largest number of entries of one directory. -/
  fields : Nat := 4096
  deriving DecidableEq, Inhabited

namespace Limits

/-- No limits but those of words. -/
def unlimited : Limits := ⟨Word.max, Word.max, Word.max, Word.max⟩

/-- Refuses a single buffer above the limit. -/
def checkSingle (limits : Limits) (requested : Nat) : Except Fault Unit :=
  if limits.single < requested then .error (.overLimit requested limits.single) else .ok ()

end Limits

/-- The total of the buffers of one scope. -/
structure Budget where
  /-- The limits that hold. -/
  limits : Limits
  /-- The bytes asked for so far. -/
  used : Nat := 0
  deriving DecidableEq, Inhabited

namespace Budget

/-- Adds a buffer to the total, unless it or the total would exceed its limit. -/
def reserve (b : Budget) (requested : Nat) : Except Fault Budget :=
  if b.limits.single < requested then .error (.overLimit requested b.limits.single)
  else
    match Word.add? b.used requested with
    | some total =>
      if total ≤ b.limits.cumulative then .ok { b with used := total }
      else .error (.overLimit requested b.limits.cumulative)
    | none => .error (.overLimit requested b.limits.cumulative)

/-- The bytes that may still be asked for. -/
def remaining (b : Budget) : Nat := b.limits.cumulative - b.used

end Budget

/-- The product of the factors; `quantity` names it in the fault raised when a product of the first
of them is no word. -/
def product (quantity : String) (factors : List Nat) : Except Fault Nat :=
  factors.foldlM (fun acc factor =>
    match Word.mul? acc factor with
    | some n => .ok n
    | none => .error (.geometry (.overflow quantity))) 1

/-- The sum of two counts; `quantity` names it in the fault raised when it is no word. -/
def sum (quantity : String) (a b : Nat) : Except Fault Nat :=
  match Word.add? a b with
  | some n => .ok n
  | none => .error (.geometry (.overflow quantity))

end TaggedImage
