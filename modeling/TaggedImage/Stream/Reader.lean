import TaggedImage.Stream.Basic

/-!
# Streams over an outside source

A `Source` is anything that can tell its length and give some of its bytes from a position on. A
`Reader` is the read-only stream over a source; it asks for the length once, when it is opened.
-/

namespace TaggedImage

/-- Something bytes can be read from. A failure is a text. -/
class Source (τ : Type) where
  /-- The number of bytes, as the source tells it. -/
  length : EStateM String τ Nat
  /-- At most `want` bytes from `offset` on. -/
  readAt (offset want : Nat) : EStateM String τ ByteArray

/-- The bytes themselves are a source, which gives all it is asked for. -/
instance : Source ByteArray where
  length := fun bytes => .ok bytes.size bytes
  readAt := fun offset want bytes => .ok (bytes.extract offset (offset + want)) bytes

/-- A read-only stream over a source. -/
structure Reader (τ : Type) where
  /-- The source, until the stream is closed. -/
  source : Option τ
  /-- The number of bytes, as the source told it at the start. -/
  size : Nat
  /-- The cursor, which may stand past the end. -/
  position : Nat := 0
  /-- What messages call the stream. -/
  name : String

namespace Reader

variable {τ : Type} [Source τ]

/-- A stream over the source. -/
def ofSource (source : τ) (name : String) : Except StreamError (Reader τ) :=
  match Source.length source with
  | .error text _ => .error (.backend text)
  | .ok size source => .ok { source := some source, size := size, name := name }

/-- At most `want` bytes from the cursor on. -/
def read (want : Nat) : StreamM (Reader τ) ByteArray := fun r =>
  match r.source with
  | none => .error (.closed r.name) r
  | some source =>
    if r.size ≤ r.position then .ok .empty r
    else
      match Source.readAt r.position (min want (r.size - r.position)) source with
      | .error text source => .error (.backend text) { r with source := some source }
      | .ok piece source =>
        .ok piece { r with source := some source, position := r.position + piece.size }

/-- Moves the cursor. -/
def seek (target : SeekTarget) : StreamM (Reader τ) Nat := fun r =>
  if r.source.isNone then .error (.closed r.name) r
  else
    match target.resolve r.position r.size with
    | .error e => .error e r
    | .ok position => .ok position { r with position := position }

instance : Channel (Reader τ) where
  size := size
  name := name
  read := read
  write _ := fun r => .error (.readOnly r.name) r
  seek := seek
  close := fun r => .ok () { r with source := none }

instance : Stream (Reader τ) where

end Reader

end TaggedImage
