import TaggedImage.ByteOrder
import TaggedImage.Stream.Basic

/-!
# Streams held in memory

A `Memory` is a buffer of which the first `size` bytes are the content; the rest is allocated and
zero. Writes past the end fill the gap with zeros, and the buffer grows in steps
(`Memory.grown`), never above a cap, and only to sizes that can be allocated.
-/

namespace TaggedImage

/-- A stream whose bytes are held in memory. -/
structure Memory where
  /-- The allocated bytes. -/
  buffer : ByteArray
  /-- The number of bytes that belong to the content. -/
  size : Nat
  /-- The cursor, which may stand past the end. -/
  position : Nat := 0
  /-- The buffer never grows above this size. -/
  cap : Nat
  /-- Whether a buffer of this size can be allocated. -/
  grants : (size : Nat) → Bool := fun _ => true
  /-- Whether writes are accepted. -/
  writable : Bool
  /-- Whether the stream was closed. -/
  isClosed : Bool := false
  /-- What messages call the stream. -/
  name : String := "mem://buffer"
  deriving Inhabited

namespace Memory

/-- The cap of a stream for which none was set: 100 MiB. -/
def defaultCap : Nat := 104857600

/-- A buffer that grows has at least this many bytes to spare, as far as the cap allows. -/
def slack : Nat := 1024

/-- An empty writable stream with `n` bytes allocated. -/
def withCapacity (n : Nat) : Memory where
  buffer := Bytes.zeros n
  size := 0
  cap := defaultCap
  writable := true

/-- A read-only stream of the given bytes. -/
def ofBytes (bytes : ByteArray) : Memory where
  buffer := bytes
  size := bytes.size
  cap := max bytes.size defaultCap
  writable := false

/-- A writable stream of the given bytes. -/
def ofBytesWritable (bytes : ByteArray) : Memory := { ofBytes bytes with writable := true }

/-- Sets the cap; a cap below the present size is raised to it. -/
def withCap (m : Memory) (cap : Nat) : Memory := { m with cap := max cap m.size }

/-- Sets which sizes can be allocated. -/
def withGrants (m : Memory) (grants : Nat → Bool) : Memory := { m with grants := grants }

/-- Sets the name. -/
def withName (m : Memory) (name : String) : Memory := { m with name := name }

/-- The bytes of the stream. -/
def contents (m : Memory) : ByteArray := m.buffer.extract 0 m.size

/-- The size to which a buffer of `allocated` bytes grows when `required` are needed: the double,
or the need and some slack, but not above the cap. -/
def grown (allocated required cap : Nat) : Nat :=
  min (max (Word.mulSat allocated 2) (Word.addSat required slack)) cap

/-- The buffer, grown if `required` bytes do not fit. -/
def allocate (m : Memory) (required : Nat) : Except StreamError ByteArray :=
  let allocated := m.buffer.size
  if required ≤ allocated then .ok m.buffer
  else if m.cap < required then .error (.capacityExceeded required m.cap)
  else
    let target := grown allocated required m.cap
    if m.grants target then .ok (m.buffer ++ Bytes.zeros (target - allocated))
    else .error (.capacityExceeded required m.cap)

/-- At most `want` bytes from the cursor on. -/
def read (want : Nat) : StreamM Memory ByteArray := fun m =>
  if m.isClosed then .error (.closed m.name) m
  else if m.size ≤ m.position then .ok .empty m
  else
    let stop := m.position + min want (m.size - m.position)
    .ok (m.buffer.extract m.position stop) { m with position := stop }

/-- Stores all of `data` at the cursor, or nothing. -/
def write (data : ByteArray) : StreamM Memory Nat := fun m =>
  if m.isClosed then .error (.closed m.name) m
  else if !m.writable then .error (.readOnly m.name) m
  else if data.size = 0 then .ok 0 m
  else
    let stop := m.position + data.size
    if Word.max < stop then .error (.capacityExceeded Word.max m.cap) m
    else
      match m.allocate stop with
      | .error e => .error e m
      | .ok buffer =>
        let size := max m.size stop
        let start := m.position
        let m := { m with buffer := .empty, position := stop, size := size }
        .ok data.size { m with buffer := data.copySlice 0 buffer start data.size }

/-- Moves the cursor. -/
def seek (target : SeekTarget) : StreamM Memory Nat := fun m =>
  if m.isClosed then .error (.closed m.name) m
  else
    match target.resolve m.position m.size with
    | .error e => .error e m
    | .ok position => .ok position { m with position := position }

/-- Refuses all later reads, writes and seeks. -/
def close : StreamM Memory Unit := fun m => .ok () { m with isClosed := true }

instance : Channel Memory where
  size := size
  name := name
  read := read
  write := write
  seek := seek
  close := close

instance : Stream Memory where

end Memory

end TaggedImage
