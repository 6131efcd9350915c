import TaggedImage.Browser
import TaggedImage.Codec
import TaggedImage.Layout.Resolve

/-!
# The units of an image

A `Browser` reads the layout of an image (`Browser.layout`) and its units, as they are stored
(`Browser.rawUnit`) or decoded (`Browser.decodedUnit`).
-/

namespace TaggedImage

namespace Browser

variable {σ : Type} [Stream σ]

/-- The layout that a directory describes. -/
def layoutOf (d : Directory) : FileM (Browser σ) Layout := fun b =>
  onStream (Layout.resolve b.header b.options d) b

/-- The layout that the current directory describes. -/
def layout : FileM (Browser σ) Layout := do
  match (← get).current with
  | some d => layoutOf d
  | none => throw (.geometry .noDirectory)

/-- The stored bytes of a unit. -/
def rawUnit (l : Layout) (index : Nat) : FileM (Browser σ) ByteArray := do
  let (offset, length) ← l.unitSpan index
  (← get).options.limits.checkSingle length
  onStream (FileM.readExactAt offset length)

/-- The rows of a decoded unit; the last one may be shorter. -/
def rowsOf (data : ByteArray) (rowSize : Nat) : List ByteArray :=
  (List.range (Word.divUp data.size rowSize)).map fun i =>
    data.extract (i * rowSize) ((i + 1) * rowSize)

/-- The rows, restored one by one. -/
def restoreRows (predictor : Predictor) (pixels stride : Nat) (rows : List ByteArray) :
    Except CodecError ByteArray :=
  rows.foldlM (fun out row => return out ++ (← predictor row pixels stride)) .empty

/-- What a codec and a predictor make of the stored bytes of a unit that has `size` bytes when it is
decoded. -/
def decodeUnit (l : Layout) (index size : Nat) (codec : Codec) (predictor : Predictor)
    (stored : ByteArray) : Except Fault ByteArray := do
  let data ← (codec stored size).mapError (Fault.codec index)
  if data.size ≠ size then throw (.codec index (.sizeMismatch size data.size))
  let rowSize ← l.unitRowSize
  if rowSize = 0 then return data
  (restoreRows predictor l.unitRowWidth l.pixelStride (rowsOf data rowSize)).mapError
    (Fault.codec index)

/-- The decoded bytes of a unit. -/
def decodedUnit (l : Layout) (index : Nat) (codecs : Codecs) : FileM (Browser σ) ByteArray := do
  let size ← l.unitDecodedSize index
  (← get).options.limits.checkSingle size
  match codecs.codec? l.compression, codecs.predictor? l.predictor with
  | none, _ => throw (.unsupportedCompression l.compression)
  | _, none => throw (.unsupportedPredictor l.predictor)
  | some codec, some predictor =>
    let stored ← rawUnit l index
    decodeUnit l index size codec predictor stored

end Browser

end TaggedImage
