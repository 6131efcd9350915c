import TaggedImage.Word

/-!
# Streams of bytes

A `Channel` is a seekable run of bytes with a cursor, whose reads and writes may move fewer bytes
than asked for. `Channel.readRange` and `Channel.writeRange` turn such short transfers into exact
ones. A `Stream` is a channel with an exact read of its own (`readExactAt`), by default
`Channel.readRange`. Every call answers with the stream it leaves behind, after a failure too.
-/

namespace TaggedImage

/-- Why a stream refused a call. -/
inductive StreamError where
  /-- The range of `requested` bytes at `offset` does not lie within the `size` bytes present. -/
  | outOfBounds (offset requested size : Nat)
  /-- The cursor cannot be moved to `target`. -/
  | invalidSeek (target : Int)
  /-- The stream of this name accepts no writes. -/
  | readOnly (name : String)
  /-- Holding `required` bytes would exceed `cap`. -/
  | capacityExceeded (required cap : Nat)
  /-- The stream of this name was closed. -/
  | closed (name : String)
  /-- The resource behind the stream failed with this text. -/
  | backend (text : String)
  /-- A position to be told is no word. No call answers this: the program stops. -/
  | overflow
  deriving DecidableEq, Inhabited

/-- The text of a stream error. -/
def StreamError.message : StreamError → String
  | outOfBounds offset requested size =>
    s!"Range out of bounds: requested {requested} bytes at offset {offset}, size is {size}"
  | invalidSeek target =>
    s!"Invalid seek: target position {target} is before the start of the stream"
  | readOnly name => s!"Stream is read-only: {name}"
  | capacityExceeded required cap =>
    s!"Stream capacity exceeded: need {required} bytes, cap is {cap}"
  | closed name => s!"Stream is closed: {name}"
  | backend text => s!"I/O error: {text}"
  | overflow => "attempt to add with overflow"

/-- The refusal of a write of `len` bytes at `offset` of which the stream took the first `done`
only, unless the end of the bytes is no word. -/
def StreamError.stalled (offset len done : Nat) : StreamError :=
  match Word.add? offset len with
  | some stop => capacityExceeded stop (offset + done)
  | none => overflow

/-- Where a cursor is to be moved. -/
inductive SeekTarget where
  /-- To this distance from the start. -/
  | start (offset : Nat)
  /-- By this distance from the cursor. -/
  | current (delta : Int)
  /-- To this distance from the end. -/
  | fromEnd (delta : Int)
  deriving DecidableEq, Inhabited

/-- The position meant by a target; one before the start, or one that is no word, is refused. -/
def SeekTarget.resolve (target : SeekTarget) (cursor size : Nat) : Except StreamError Nat :=
  let position : Int :=
    match target with
    | start offset => offset
    | current delta => cursor + delta
    | fromEnd delta => size + delta
  if 0 ≤ position ∧ position ≤ Word.max then .ok position.toNat else .error (.invalidSeek position)

/-- A call on a stream of type `σ`. -/
abbrev StreamM (σ : Type) := EStateM StreamError σ

/-- A seekable run of bytes with a cursor. -/
class Channel (σ : Type) where
  /-- The number of bytes held. -/
  size : σ → Nat
  /-- What messages call the channel. -/
  name : σ → String
  /-- At most `want` bytes from the cursor on, which moves past them; none at the end. -/
  read (want : Nat) : StreamM σ ByteArray
  /-- Stores a first part of `data` at the cursor, which moves past it; answers its length. -/
  write (data : ByteArray) : StreamM σ Nat
  /-- Moves the cursor and answers its position. -/
  seek (target : SeekTarget) : StreamM σ Nat
  /-- Releases what the channel holds. -/
  close : StreamM σ Unit

namespace Channel

variable {σ : Type} [Channel σ]

/-- Reads on until `len` bytes are held, of which `got` were read before; `offset` is where the
first of them lies. -/
def fill (offset len : Nat) (got : ByteArray) : StreamM σ ByteArray := do
  if got.size < len then
    let piece ← read (len - got.size)
    if piece.size = 0 then throw (.outOfBounds offset len (offset + got.size))
    else fill offset len (got ++ piece)
  else return got
termination_by len - got.size
decreasing_by simp only [ByteArray.size_append]; omega

/-- Exactly the `len` bytes at `offset`; a range that is not within the channel is refused before
anything is read. -/
def readRange (offset len : Nat) : StreamM σ ByteArray := do
  let size := size (← get)
  if size < offset + len then throw (.outOfBounds offset len size)
  if len = 0 then return .empty
  let _ ← seek (.start offset)
  fill offset len .empty

/-- Writes on until all of `data` is stored, of which the first `done` bytes were stored before;
`offset` is where the first of them went. A channel may claim to have stored more than it was
given, but not so much more that the number of bytes stored is no word. -/
def drain (offset : Nat) (data : ByteArray) (done : Nat) : StreamM σ Unit := do
  if done < data.size then
    let n ← write (data.extract done data.size)
    if n = 0 then throw (.stalled offset data.size done)
    else if max data.size Word.max < done + n then throw .overflow
    else drain offset data (done + n)
termination_by data.size - done

/-- Stores all of `data` at `offset`. -/
def writeRange (offset : Nat) (data : ByteArray) : StreamM σ Unit := do
  let _ ← seek (.start offset)
  drain offset data 0

end Channel

/-- A channel with an exact read. -/
class Stream (σ : Type) extends Channel σ where
  /-- Exactly the `len` bytes at `offset`. -/
  readExactAt (offset len : Nat) : StreamM σ ByteArray := Channel.readRange offset len

end TaggedImage
