import TaggedImage.Browser.Units
import TaggedImage.Compression
import TaggedImage.Value.Text

/-!
# Reports on the directories of a file

A `Report` tells what is in a file: the directories of the chain, their fields and units, and their
sub-directories. `Report.ofBrowser` makes one. What cannot be read within a directory is noted
there, and the report goes on.
-/

namespace TaggedImage

/-- A field in a report. -/
structure FieldReport where
  /-- The tag. -/
  tag : TagId
  /-- The name of the tag. -/
  name : String
  /-- The name of the type. -/
  type : String
  /-- The number of values. -/
  count : Nat
  /-- The values, if they were asked for and could be read. -/
  value : Option String
  deriving Inhabited

/-- The units of an image in a report. -/
structure UnitReport where
  /-- Strips or tiles. -/
  layout : String
  /-- The columns of the image. -/
  width : Nat
  /-- The rows of the image. -/
  height : Nat
  /-- The samples of a pixel. -/
  samples : Nat
  /-- The bits of a sample. -/
  bits : Nat
  /-- The name of the compression scheme. -/
  compression : String
  /-- The number of units. -/
  count : Nat
  /-- Where the first units are stored, and the bytes they have there. -/
  units : List (Nat × Nat)
  deriving Inhabited

mutual

/-- A directory in a report. -/
inductive DirectoryReport where
  /-- A directory at `offset`, with its place in the chain if it has one, the offset of the next
  one, its fields, units and sub-directories, and what went wrong. -/
  | mk (index : Option Nat) (offset next : Nat) (fields : List FieldReport)
    (units : Option UnitReport) (subDirectories : List SubDirectoryReport) (errors : List String)

/-- A sub-directory in a report. -/
inductive SubDirectoryReport where
  /-- The directory at `position` among those that the field named `via` refers to. -/
  | mk (via : String) (position : Nat) (directory : DirectoryReport)

end

/-- What is in a file. -/
structure Report where
  /-- The name of the stream. -/
  source : String
  /-- The byte order. -/
  order : ByteOrder
  /-- The width of the offsets. -/
  width : OffsetWidth
  /-- The directories of the chain. -/
  directories : List DirectoryReport
  /-- Why the walk along the chain stopped, if it did. -/
  stop : Option StopReason
  /-- What went wrong on the chain. -/
  error : Option String

/-- What a report is to tell. -/
structure ReportOptions where
  /-- Whether sub-directories are followed. -/
  subDirectories : Bool := true
  /-- Whether values are read. -/
  values : Bool := true
  /-- The largest number of directories of the chain. -/
  maxDirectories : Nat := Word.max

namespace Report

/-- Sub-directories are followed to this depth. -/
def maxDepth : Nat := 8

/-- The largest number of units that are listed. -/
def maxUnits : Nat := 16

/-- A look at a file. The faults of its calls go into the report; only one that stops the program is
raised. -/
abbrev Look (σ : Type) := FileM (Browser σ)

variable {σ : Type}

/-- The name of a compression scheme, or its number if it has none. -/
def compressionName (code : UInt16) : String :=
  match Compression.ofCode? code.toNat with
  | some c => c.name
  | none => s!"unknown ({code})"

/-- The units of a layout. -/
def unitReport (l : Layout) : Except Fault UnitReport := do
  let count ← l.unitCount
  let units ← (List.range (min count maxUnits)).mapM l.unitSpan
  return {
    layout := l.kind.name, width := l.width, height := l.height, samples := l.samples
    bits := l.bits, compression := compressionName l.compression, count, units }

variable [Stream σ]

/-- The text of the values of an entry, if it is asked for, and what went wrong. -/
def valueText (options : ReportOptions) (e : Entry) : Look σ (Option String × List String) := do
  if options.values then
    match ← FileM.attempt (Browser.readValue e) with
    | .ok value => return (some value.text, [])
    | .error fault => return (none, [s!"{e.label}: {fault.message}"])
  else return (none, [])

/-- The fields, and what went wrong. -/
def fieldReports (options : ReportOptions) : List Entry → Look σ (List FieldReport × List String)
  | [] => return ([], [])
  | e :: es => do
    let (value, errors) ← valueText options e
    let name := (← get).catalog.nameOf e.tag
    let (fields, more) ← fieldReports options es
    return (⟨e.tag, name, e.type.name, e.count, value⟩ :: fields, errors ++ more)

/-- The units of a directory that has the width of an image, and what went wrong. -/
def directoryUnits (d : Directory) : Look σ (Option UnitReport × List String) := do
  if (d.get? KnownTag.imageWidth.id).isSome then
    match (← FileM.attempt (Browser.layoutOf d)).bind unitReport with
    | .ok units => return (some units, [])
    | .error fault => return (none, [s!"units: {fault.message}"])
  else return (none, [])

/-- The sub-directories that an entry refers to, from `position` on, `n` of them or up to the first
that cannot be read, and what went wrong. -/
def entryChildren (report : Directory → Look σ DirectoryReport) (via : String) (e : Entry)
    (position : Nat) : (n : Nat) → Look σ (List SubDirectoryReport × List String)
  | 0 => return ([], [])
  | n + 1 => do
    match ← FileM.attempt (Browser.enter e position) with
    | .error fault => return ([], [s!"{via}[{position}]: {fault.message}"])
    | .ok child =>
      let directory ← report child
      let (rest, errors) ← entryChildren report via e (position + 1) n
      return (.mk via position directory :: rest, errors)

/-- The sub-directories that the entries refer to, and what went wrong. -/
def children (report : Directory → Look σ DirectoryReport) :
    List Entry → Look σ (List SubDirectoryReport × List String)
  | [] => return ([], [])
  | e :: es => do
    let via := (← get).catalog.nameOf e.tag
    let (first, errors) ← entryChildren report via e 0 e.count
    let (rest, more) ← children report es
    return (first ++ rest, errors ++ more)

/-- A directory, its sub-directories followed `depth` levels down. -/
def directoryReport (options : ReportOptions) : (depth : Nat) → Option Nat → Directory →
    Look σ DirectoryReport
  | depth, index, d => do
    let (fields, valueErrors) ← fieldReports options d.entries
    let (units, unitErrors) ← directoryUnits d
    let (subs, subErrors) ←
      if options.subDirectories then
        match depth with
        | 0 =>
          if d.subDirectoryEntries.isEmpty then pure ([], [])
          else pure ([], ["sub-directories nested too deeply"])
        | depth + 1 => children (directoryReport options depth none) d.subDirectoryEntries
      else pure ([], [])
    return .mk index d.offset d.next fields units subs (valueErrors ++ unitErrors ++ subErrors)

/-- The directories of the chain, at most `n`, and what went wrong. -/
def chain (options : ReportOptions) : (n : Nat) → Look σ (List DirectoryReport × Option String)
  | 0 => return ([], none)
  | n + 1 => do
    match ← FileM.attempt Browser.next with
    | .error fault => return ([], some fault.message)
    | .ok none => return ([], none)
    | .ok (some d) =>
      let index := (← get).index
      let first ← directoryReport options maxDepth index d
      let (rest, error) ← chain options n
      return (first :: rest, error)

/-- What is in the file; the walk starts anew. -/
def ofBrowser (options : ReportOptions) : Look σ Report := do
  modify Browser.rewound
  let (directories, error) ← chain options options.maxDirectories
  let b ← get
  return {
    source := Channel.name b.stream, order := b.header.order, width := b.header.width
    directories, stop := b.stop, error }

/-- Why the walk along the chain stopped, in words. -/
def stopText (stop : Option StopReason) : String :=
  match stop with
  | none | some .endOfChain => "end of chain"
  | some (.cycle offset) => s!"cycle back to offset {offset}"
  | some .limit => "directory limit reached"
  | some .malformed => "malformed directory"

end Report

end TaggedImage
