import TaggedImage.FileAccess
import TaggedImage.Stream.Cached

/-!
# The settings of the inspector

`Settings` holds all that the command line and the environment can set. `Settings.flaw?` tells what
is wrong with settings that can be read and make no sense.
-/

namespace TaggedImage

/-- How a report is written. -/
inductive ReportFormat where
  | text
  | json
  deriving DecidableEq, Inhabited

/-- The format with this name. -/
def ReportFormat.ofName? : String → Option ReportFormat
  | "text" => some text
  | "json" => some json
  | _ => none

/-- The settings of the inspector. -/
structure Settings where
  /-- The file. -/
  path : String
  /-- How the report is written. -/
  format : ReportFormat := .text
  /-- Whether sub-directories are left out. -/
  noSubDirectories : Bool := false
  /-- Whether values are left out. -/
  noValues : Bool := false
  /-- Whether directories that break a rule are refused. -/
  strict : Bool := false
  /-- Whether tags nothing is known of are reported. -/
  warnUnknownTags : Bool := false
  /-- The largest number of directories of the chain. -/
  maxDirectories : Nat := ({} : Limits).directories
  /-- The largest number of entries of a directory. -/
  maxFields : Nat := ({} : Limits).fields
  /-- The largest single buffer. -/
  maxSingle : Nat := ({} : Limits).single
  /-- The largest total of the buffers of one scope. -/
  maxCumulative : Nat := ({} : Limits).cumulative
  /-- The largest number of jumps. -/
  maxJumps : Nat := ({} : Options).maxJumps
  /-- The size of a block of the cache. -/
  blockSize : Nat := Cached.defaultBlockSize
  /-- The number of blocks of the cache. -/
  cacheBlocks : Nat := Cached.defaultCapacity
  /-- Whether more is reported on the way. -/
  verbose : Bool := false
  deriving DecidableEq, Inhabited

/-- What is wrong with settings. -/
inductive SettingsFlaw where
  | noDirectories
  | noFields
  | noBuffer
  | singleAboveCumulative
  | noBlocks
  | blockSize
  deriving DecidableEq, Inhabited

/-- The text of a flaw. -/
def SettingsFlaw.message : SettingsFlaw → String
  | noDirectories => "max_directories must be greater than 0"
  | noFields => "max_fields must be greater than 0"
  | noBuffer => "max_single_alloc must be greater than 0"
  | singleAboveCumulative => "max_single_alloc cannot exceed max_cumulative_alloc"
  | noBlocks => "cache_blocks must be greater than 0"
  | blockSize => "block_size must be between 1KB and 16MB"

namespace Settings

/-- The first flaw of the settings. -/
def flaw? (s : Settings) : Option SettingsFlaw :=
  if s.maxDirectories = 0 then some .noDirectories
  else if s.maxFields = 0 then some .noFields
  else if s.maxSingle = 0 then some .noBuffer
  else if s.maxCumulative < s.maxSingle then some .singleAboveCumulative
  else if s.cacheBlocks = 0 then some .noBlocks
  else if s.blockSize < 1024 ∨ 16777216 < s.blockSize then some .blockSize
  else none

/-- The limits that the settings ask for. -/
def limits (s : Settings) : Limits :=
  ⟨s.maxSingle, s.maxCumulative, s.maxDirectories, s.maxFields⟩

/-- How the settings ask for the file to be opened. -/
def options (s : Settings) : Options := ⟨s.strict, s.warnUnknownTags, s.maxJumps, s.limits⟩

end Settings

end TaggedImage
