import TaggedImage.Stream.Basic
import TaggedImage.Stream.Recency

/-!
# Streams behind a cache of blocks

`Cached σ μ` reads a stream of type `σ` in blocks of one size and keeps them in a bounded map of
type `μ`, by default the one that keeps the most recently used. A write goes to the stream behind
and erases the blocks it touches; when it makes the stream longer, the block that was the last is
erased too, since it was held short.
-/

namespace TaggedImage

/-- A stream behind a cache of its blocks. -/
structure Cached (σ : Type) (μ : Type := Recency ByteArray) where
  /-- The stream behind the cache. -/
  inner : σ
  /-- The size of a block; the last one of the stream may be shorter. -/
  blockSize : Nat
  /-- The blocks held, by their number. -/
  blocks : μ
  /-- The cursor. -/
  position : Nat := 0
  /-- How often a block was found in the cache. -/
  hits : Nat := 0
  /-- How often a block was looked for in the stream behind. -/
  misses : Nat := 0

namespace Cached

variable {σ μ : Type} [Stream σ] [BlockMap μ]

/-- The block size of a cache for which none was chosen: 64 KiB. -/
def defaultBlockSize : Nat := 65536

/-- The number of blocks kept by a cache for which none was chosen. -/
def defaultCapacity : Nat := 64

/-- A stream behind an empty cache; a block has at least one byte and the cache at least one
block. -/
def ofStream (inner : σ) (blockSize capacity : Nat) : Cached σ μ where
  inner := inner
  blockSize := max blockSize 1
  blocks := BlockMap.empty (max capacity 1)

/-- Runs a call on the stream behind. -/
def onInner {α : Type} (call : StreamM σ α) : StreamM (Cached σ μ) α := fun c =>
  match call c.inner with
  | .ok a inner => .ok a { c with inner := inner }
  | .error e inner => .error e { c with inner := inner }

/-- The block of this number, read from the stream behind. -/
def fetch (index : Nat) : StreamM (Cached σ μ) ByteArray := do
  let c ← get
  let offset := index * c.blockSize
  let size := Channel.size c.inner
  if size ≤ offset then throw (.outOfBounds offset c.blockSize size)
  onInner (Stream.readExactAt offset (min c.blockSize (size - offset)))

/-- The block of this number, from the cache if it is there. -/
def block (index : Nat) : StreamM (Cached σ μ) ByteArray := do
  let c ← get
  match BlockMap.get? c.blocks index with
  | some data =>
    set { c with hits := c.hits + 1, blocks := BlockMap.touch c.blocks index }
    return data
  | none =>
    set { c with misses := c.misses + 1 }
    let data ← fetch index
    modify fun c => { c with blocks := BlockMap.insert c.blocks index data }
    return data

/-- Appends to `got` what `count` blocks from number `index` on hold of the `remaining` bytes that
start `skip` bytes into the first of them. -/
def gather (index skip remaining : Nat) (got : ByteArray) : (count : Nat) →
    StreamM (Cached σ μ) ByteArray
  | 0 => return got
  | count + 1 => do
    let data ← block index
    let n := min (data.size - skip) remaining
    gather (index + 1) 0 (remaining - n) (got ++ data.extract skip (skip + n)) count

/-- Exactly the `len` bytes at `offset`. -/
def readExactAt (offset len : Nat) : StreamM (Cached σ μ) ByteArray := do
  let c ← get
  let size := Channel.size c.inner
  if size < offset + len then throw (.outOfBounds offset len size)
  if len = 0 then return .empty
  let first := offset / c.blockSize
  let last := (offset + len - 1) / c.blockSize
  gather first (offset % c.blockSize) len .empty (last - first + 1)

/-- At most `want` bytes from the cursor on, fewer only at the end. -/
def read (want : Nat) : StreamM (Cached σ μ) ByteArray := do
  let c ← get
  let size := Channel.size c.inner
  if size ≤ c.position || want = 0 then return .empty
  let len := min want (size - c.position)
  let data ← readExactAt c.position len
  modify fun c => { c with position := c.position + len }
  return data

/-- The cache without the blocks that hold a byte of the range. -/
def forget (c : Cached σ μ) (start stop : Nat) : Cached σ μ :=
  if stop ≤ start then c
  else
    let first := start / c.blockSize
    let last := (stop - 1) / c.blockSize
    { c with blocks := BlockMap.eraseRange c.blocks first (last - first + 1) }

/-- Writes to the stream behind. -/
def write (data : ByteArray) : StreamM (Cached σ μ) Nat := do
  let before ← get
  let oldSize := Channel.size before.inner
  let start := before.position
  let _ ← onInner (Channel.seek (.start start))
  let n ← onInner (Channel.write data)
  modify fun c =>
    let c := { c with position := start + n }.forget start (start + n)
    if Channel.size c.inner ≠ oldSize ∧ 0 < oldSize then
      { c with blocks := BlockMap.erase c.blocks ((oldSize - 1) / c.blockSize) }
    else c
  return n

/-- Moves the cursor; the stream behind is not asked. -/
def seek (target : SeekTarget) : StreamM (Cached σ μ) Nat := fun c =>
  match target.resolve c.position (Channel.size c.inner) with
  | .error e => .error e c
  | .ok position => .ok position { c with position := position }

/-- Drops all blocks and closes the stream behind. -/
def close : StreamM (Cached σ μ) Unit := do
  modify fun c => { c with blocks := BlockMap.clear c.blocks }
  onInner Channel.close

instance : Channel (Cached σ μ) where
  size c := Channel.size c.inner
  name c := Channel.name c.inner
  read := read
  write := write
  seek := seek
  close := close

instance : Stream (Cached σ μ) where
  readExactAt := readExactAt

end Cached

end TaggedImage
