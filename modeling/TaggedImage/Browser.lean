import Std.Data.TreeSet
import TaggedImage.Directory

/-!
# Walking through the directories of a file

A `Browser` holds an open file and a current directory. The chain of directories starts at the
offset that the header gives and goes on from each directory to the next. `Browser.next` walks along
the chain and stops where it ends, comes back to an offset, becomes too long or cannot be read
(`StopReason`). `Browser.jumpTo` makes any directory the current one; from there `Browser.next` goes
on along its own next directories. `Browser.enter` reads a sub-directory and leaves the current
directory alone.

The offsets met by the walk are kept twice: in `Browser.chain`, in the order of the walk, and in the
set `Browser.visited`, by which cycles are found and directories counted. An offset that stands in
the list at the place the walk has come to may be walked again.
-/

namespace TaggedImage

/-- Why the walk along the chain stopped. -/
inductive StopReason where
  /-- There is no next directory. -/
  | endOfChain
  /-- The next directory was visited before. -/
  | cycle (offset : Nat)
  /-- As many directories as allowed were visited. -/
  | limit
  /-- The next directory cannot be read. -/
  | malformed
  deriving DecidableEq, Inhabited

/-- An open file and the place the walk through it has come to. -/
structure Browser (σ : Type) where
  /-- The stream of the file. -/
  stream : σ
  /-- The header of the file. -/
  header : Header
  /-- How the file was opened. -/
  options : Options
  /-- What is known of tags. -/
  catalog : Catalog
  /-- The current directory. -/
  current : Option Directory := none
  /-- The place of the current directory in the chain, if it is known. -/
  index : Option Nat := none
  /-- The offsets visited, in the order of the walk. -/
  chain : List Nat := []
  /-- The offsets visited, as a set. -/
  visited : Std.TreeSet Nat := {}
  /-- Whether there was a first directory to read or to jump to. -/
  started : Bool := false
  /-- Why the walk stopped, if it did. -/
  stop : Option StopReason := none
  /-- The number of jumps made. -/
  jumps : Nat := 0

namespace Browser

variable {σ : Type}

/-! ## Opening -/

/-- The size of the longest header. -/
def headerMax : Nat := 16

/-- The header of the file. -/
def readHeader [Stream σ] (strict : Bool) : FileM σ Header := do
  let size ← FileM.size
  let bytes ← FileM.readExactAt 0 (min size headerMax)
  if strict then Header.parseStrict bytes else Header.parse bytes

/-- Opens a file; no directory is read yet. -/
def ofStream [Stream σ] (stream : σ) (options : Options) (catalog : Catalog) :
    Except Fault (Browser σ) :=
  match readHeader options.strict stream with
  | .error fault _ => .error fault
  | .ok header stream => .ok { stream, header, options, catalog }

/-- The browser as it was when the file was opened. -/
def rewound (b : Browser σ) : Browser σ :=
  { b with
    current := none, index := none, chain := [], visited := {}, started := false, stop := none
    jumps := 0 }

/-- Whether no directory follows the current one, or there is none at all. -/
def isLast (b : Browser σ) : Bool :=
  match b.current with
  | some d => d.next == 0
  | none => b.header.first == 0

/-! ## Calls on the stream -/

/-- A call on the stream of the file, which changes nothing but the stream. -/
def onStream {α : Type} (call : FileM σ α) : FileM (Browser σ) α := fun b =>
  match call b.stream with
  | .ok a stream => .ok a { b with stream := stream }
  | .error fault stream => .error fault { b with stream := stream }

/-- The directory at `offset`. -/
def directoryAt [Stream σ] (offset : Nat) : FileM (Browser σ) Directory := fun b =>
  onStream (Directory.read b.header b.options b.catalog offset) b

/-- The values of an entry. -/
def readValue [Stream σ] (e : Entry) : FileM (Browser σ) Value := fun b =>
  onStream (e.readValue b.header.order b.options.limits) b

/-- The values of an entry as natural numbers. -/
def readUnsignedList [Stream σ] (e : Entry) : FileM (Browser σ) (List Nat) := fun b =>
  onStream (e.readUnsignedList b.header.order b.options.limits) b

/-- The entry of a tag in the current directory. -/
def currentField? (b : Browser σ) (tag : TagId) : Option Entry := b.current.bind (·.get? tag)

/-- The values of a tag in the current directory. -/
def fieldValue [Stream σ] (tag : TagId) : FileM (Browser σ) (Option Value) := do
  match (← get).currentField? tag with
  | none => return none
  | some e => return some (← readValue e)

/-- The first value of a tag in the current directory, as a natural number. -/
def fieldUnsigned [Stream σ] (tag : TagId) : FileM (Browser σ) (Option Nat) := do
  let b ← get
  match b.currentField? tag with
  | none => return none
  | some e =>
    let call := onStream (e.readUnsigned b.header.order b.options.limits)
    return some (← call.mapFault (·.forTag (b.catalog.nameOf tag)))

/-- The first value of a tag in the current directory, or its baseline value. -/
def fieldUnsignedOrDefault [Stream σ] (tag : TagId) : FileM (Browser σ) (Option Nat) := do
  match ← fieldUnsigned tag with
  | some n => return some n
  | none => return (KnownTag.ofId? tag).bind KnownTag.default?

/-! ## The chain -/

/-- The offset the walk comes to next and its place in the chain, if it is known. -/
def successor (b : Browser σ) : Nat × Option Nat :=
  if b.started then
    match b.current with
    | some d => (d.next, b.index.map (· + 1))
    | none => (0, none)
  else (b.header.first, some 0)

/-- Whether the walk comes to an offset at a place where it met that offset before. -/
def isKnown (b : Browser σ) (offset : Nat) (index : Option Nat) : Bool :=
  index.any fun i => b.chain[i]? == some offset

/-- What keeps the walk from reading the directory at this offset. -/
def obstacle? (b : Browser σ) (offset : Nat) (index : Option Nat) : Option StopReason :=
  if offset = 0 then some .endOfChain
  else if b.isKnown offset index then none
  else if b.visited.contains offset then some (.cycle offset)
  else if b.options.limits.directories ≤ b.visited.size then some .limit
  else none

/-- The browser with the directory that the walk came to as the current one. -/
def arrive (b : Browser σ) (d : Directory) (offset : Nat) (index : Option Nat) : Browser σ :=
  if b.isKnown offset index then { b with started := true, current := some d, index := index }
  else
    { b with
      started := true, current := some d
      index := index.map fun _ => b.chain.length
      chain := b.chain ++ [offset], visited := b.visited.insert offset }

/-- Walks to the next directory of the chain, or stops. A directory that cannot be read stops the
walk too; the fault is raised once. -/
def next [Stream σ] : FileM (Browser σ) (Option Directory) := fun b =>
  if b.stop.isSome then .ok none b
  else
    let (offset, index) := b.successor
    match b.obstacle? offset index with
    | some reason => .ok none { b with started := true, stop := some reason }
    | none =>
      match directoryAt offset b with
      | .error fault b => .error fault { b with started := true, stop := some .malformed }
      | .ok d b => .ok (some d) (b.arrive d offset index)

/-- Walks `n` directories further and answers the last of them. -/
def advance [Stream σ] (index : Nat) : (n : Nat) → FileM (Browser σ) Directory
  | 0 => do
    match (← get).current with
    | some d => return d
    | none => throw (.geometry .noDirectory)
  | n + 1 => do
    match ← next with
    | some _ => advance index n
    | none =>
      let b ← get
      match b.stop with
      | some (.cycle offset) => throw (.cycle offset)
      | _ => throw (.outOfRange index 1 b.chain.length)

/-- Walks from the start to the directory at this place of the chain. -/
def goTo [Stream σ] (index : Nat) : FileM (Browser σ) Directory := do
  modify rewound
  advance index (index + 1)

/-- The directories of the chain from `offset` on, at most `n` of them and up to the first that
cannot be read or is in `visited`. -/
def walk [Stream σ] (visited : List Nat) (offset : Nat) : (n : Nat) →
    FileM (Browser σ) (List (Except Fault Directory))
  | 0 => return []
  | n + 1 =>
    if offset = 0 ∨ offset ∈ visited then return []
    else do
      match ← (directoryAt offset).attempt with
      | .error fault => return [.error fault]
      | .ok d => return .ok d :: (← walk (offset :: visited) d.next n)

/-- The directories of the chain, at most `most` of them. The current directory stays as it is. -/
def enumerate [Stream σ] (most : Nat) : FileM (Browser σ) (List (Except Fault Directory)) := do
  let b ← get
  walk [] b.header.first (min most b.options.limits.directories)

/-- The offset of the directory after the one at `offset`, whose entries are not read. -/
def nextOffset [Stream σ] (header : Header) (offset : Nat) : FileM σ Nat := do
  let size ← FileM.size
  let width := header.width
  let count ← Directory.readNumber header.order offset width.countSize
  match Word.mul? count width.entrySize with
  | none => throw (.truncated offset Word.max (size - offset))
  | some len =>
    let pos := (← FileM.sum offset width.countSize) + len
    if size < pos + width.offsetSize then throw (.truncated offset len (size - offset))
    Directory.readNumber header.order pos width.offsetSize

/-- The number of directories visited when the walk goes on from `offset`, at most `n` more. -/
def countFrom [Stream σ] (visited : List Nat) (offset : Nat) : (n : Nat) → FileM (Browser σ) Nat
  | 0 => return visited.length
  | n + 1 =>
    if offset = 0 ∨ offset ∈ visited then return visited.length
    else do
      let header := (← get).header
      match ← (onStream (nextOffset header offset)).attempt with
      | .error _ => return visited.length + 1
      | .ok next => countFrom (offset :: visited) next n

/-- The number of directories of the chain, whose entries are not read. A directory after which the
chain cannot be followed counts. -/
def count [Stream σ] : FileM (Browser σ) Nat := do
  let b ← get
  countFrom [] b.header.first b.options.limits.directories

/-! ## Jumps -/

/-- Counts a jump, unless all that are allowed have been made. -/
def takeJump : FileM (Browser σ) Unit := fun b =>
  if b.options.maxJumps ≤ b.jumps then .error (.jumpLimit b.options.maxJumps) b
  else .ok () { b with jumps := b.jumps + 1 }

/-- Makes the directory at `offset` the current one. -/
def jumpTo [Stream σ] (offset : Nat) : FileM (Browser σ) Directory := do
  takeJump
  let d ← directoryAt offset
  modify fun b =>
    { b with current := some d, index := b.chain.idxOf? offset, started := true, stop := none }
  return d

/-- The sub-directory at this place among those that an entry refers to. -/
def enter [Stream σ] (e : Entry) (index : Nat) : FileM (Browser σ) Directory := do
  if !e.isSubDirectory then throw (.notSubDirectory e.tag)
  takeJump
  let offsets ← readUnsignedList e
  match offsets[index]? with
  | none => throw (.outOfRange index 1 offsets.length)
  | some offset => directoryAt offset

/-- The sub-directory at this place among those that a tag of the current directory refers to. -/
def subDirectory [Stream σ] (tag : TagId) (index : Nat) :
    FileM (Browser σ) (Option Directory) := do
  match (← get).currentField? tag with
  | none => return none
  | some e => return some (← enter e index)

/-- The offsets of the sub-directories of the current directory. -/
def subDirectoryOffsets [Stream σ] : FileM (Browser σ) (List Nat) := do
  match (← get).currentField? KnownTag.subDirectories.id with
  | none => return []
  | some e => readUnsignedList e

/-! ## Closing -/

/-- Closes the file. -/
def close [Stream σ] (b : Browser σ) : EStateM.Result StreamError σ Unit := Channel.close b.stream

end Browser

end TaggedImage
