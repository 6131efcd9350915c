import TaggedImage.CommandLine.Settings

/-!
# Reading the command line and the environment

`Settings.ofArguments` reads settings from the arguments of the inspector. What the arguments do not
set is looked up in the environment, and has its default value if it is not there either.

Arguments are taken from left to right. The value of an option, and the path, are looked at only
when the next argument is known to be one, so that an argument that is none is reported first.
-/

namespace TaggedImage

/-- Why a command line is no order to write a report. -/
inductive UsageError where
  /-- There is no path. -/
  | missingPath
  /-- There is no such option, or there is a second path. -/
  | unknownArgument
  /-- The value is none of those allowed, or there is none. -/
  | invalidValue
  /-- The value is no number. -/
  | notNumber
  /-- The option is there twice. -/
  | repeated
  /-- The option takes no value and has one. -/
  | unneededValue
  /-- Help is asked for. -/
  | help
  /-- The version is asked for. -/
  | version
  deriving DecidableEq, Inhabited

/-- What can be set. -/
inductive Slot where
  | path
  | format
  | noSubDirectories
  | noValues
  | strict
  | warnUnknownTags
  | maxDirectories
  | maxFields
  | maxSingle
  | maxCumulative
  | maxJumps
  | blockSize
  | cacheBlocks
  | verbose
  deriving DecidableEq, Inhabited

namespace Slot

/-- All slots, in the order in which the environment is looked at. -/
def all : List Slot :=
  [path, format, noSubDirectories, noValues, strict, warnUnknownTags, maxDirectories, maxFields,
    maxSingle, maxCumulative, maxJumps, blockSize, cacheBlocks, verbose]

/-- The name of the option that sets the slot. -/
def optionName? : Slot → Option String
  | path => none
  | format => some "format"
  | noSubDirectories => some "no-sub-directories"
  | noValues => some "no-values"
  | strict => some "strict"
  | warnUnknownTags => some "warn-unknown-tags"
  | maxDirectories => some "max-directories"
  | maxFields => some "max-fields"
  | maxSingle => some "max-single-alloc"
  | maxCumulative => some "max-cumulative-alloc"
  | maxJumps => some "max-jumps"
  | blockSize => some "block-size"
  | cacheBlocks => some "cache-blocks"
  | verbose => some "verbose"

/-- The variable of the environment that sets the slot. -/
def environmentName? : Slot → Option String
  | format => some "TIFFNAV_FORMAT"
  | strict => some "TIFFNAV_STRICT"
  | warnUnknownTags => some "TIFFNAV_WARN_UNKNOWN_TAGS"
  | maxDirectories => some "TIFFNAV_MAX_DIRECTORIES"
  | maxFields => some "TIFFNAV_MAX_FIELDS"
  | maxSingle => some "TIFFNAV_MAX_SINGLE_ALLOC"
  | maxCumulative => some "TIFFNAV_MAX_CUMULATIVE_ALLOC"
  | maxJumps => some "TIFFNAV_MAX_JUMPS"
  | blockSize => some "TIFFNAV_BLOCK_SIZE"
  | cacheBlocks => some "TIFFNAV_CACHE_BLOCKS"
  | path | noSubDirectories | noValues | verbose => none

/-- Whether the option is set by being there and takes no value. -/
def isFlag : Slot → Bool
  | noSubDirectories | noValues | strict | warnUnknownTags | verbose => true
  | _ => false

/-- The slot of the option with this name. -/
def ofOptionName? (name : String) : Option Slot := all.find? (·.optionName? == some name)

end Slot

/-- A word as a decimal number; a plus sign may stand before it. -/
def parseWord? (s : String) : Option Nat :=
  let digits := match s.toList with
    | '+' :: rest => rest
    | cs => cs
  if digits.isEmpty || digits.any (!·.isDigit) then none
  else
    let n := digits.foldl (fun n c => n * 10 + (c.toNat - '0'.toNat)) 0
    if n ≤ Word.max then some n else none

/-- The settings with a slot set to what a text says. -/
def Settings.set (s : Settings) (slot : Slot) (text : String) : Except UsageError Settings :=
  let flag (f : Bool → Settings) : Except UsageError Settings :=
    if text = "true" then .ok (f true)
    else if text = "false" then .ok (f false)
    else .error .invalidValue
  let number (f : Nat → Settings) : Except UsageError Settings :=
    match parseWord? text with
    | some n => .ok (f n)
    | none => .error .notNumber
  match slot with
  | .path => if text.isEmpty then .error .invalidValue else .ok { s with path := text }
  | .format =>
    match ReportFormat.ofName? text with
    | some format => .ok { s with format := format }
    | none => .error .invalidValue
  | .noSubDirectories => flag fun b => { s with noSubDirectories := b }
  | .noValues => flag fun b => { s with noValues := b }
  | .strict => flag fun b => { s with strict := b }
  | .warnUnknownTags => flag fun b => { s with warnUnknownTags := b }
  | .verbose => flag fun b => { s with verbose := b }
  | .maxDirectories => number fun n => { s with maxDirectories := n }
  | .maxFields => number fun n => { s with maxFields := n }
  | .maxSingle => number fun n => { s with maxSingle := n }
  | .maxCumulative => number fun n => { s with maxCumulative := n }
  | .maxJumps => number fun n => { s with maxJumps := n }
  | .blockSize => number fun n => { s with blockSize := n }
  | .cacheBlocks => number fun n => { s with cacheBlocks := n }

namespace CommandLine

/-- How far the arguments have been read. -/
structure Progress where
  /-- The settings so far. -/
  settings : Settings := { path := "" }
  /-- The slots that are set. -/
  given : List Slot := []
  /-- The slot that is to be set next, and its value if it was read. -/
  pending : Option (Slot × Option String) := none
  /-- Whether there was a path. -/
  hasPath : Bool := false
  /-- Whether all that follows are paths. -/
  onlyPaths : Bool := false

/-- Sets a slot to what a text says. -/
def Progress.give (p : Progress) (slot : Slot) (text : String) : Except UsageError Progress :=
  if slot ∈ p.given then .error .repeated
  else return { p with settings := ← p.settings.set slot text, given := slot :: p.given }

/-- Sets the slot that is to be set next. -/
def Progress.settle (p : Progress) : Except UsageError Progress :=
  match p.pending with
  | none => .ok p
  | some (_, none) => .error .invalidValue
  | some (slot, some text) => { p with pending := none }.give slot text

/-- Sets the slot of an option that takes no value. -/
def Progress.flag (p : Progress) (slot : Slot) : Except UsageError Progress := do
  (← p.settle).give slot "true"

/-- Takes an option with its name in full, and a value if one is attached. -/
def Progress.longOption (p : Progress) (name : String) (value : Option String) :
    Except UsageError Progress :=
  let asked (e : UsageError) : Except UsageError Progress :=
    if value.isSome then .error .unneededValue
    else do
      let _ ← p.settle
      throw e
  if name = "help" then asked .help
  else if name = "version" then asked .version
  else
    match Slot.ofOptionName? name with
    | none => .error .unknownArgument
    | some slot =>
      match slot.isFlag, value with
      | true, none => p.flag slot
      | true, some _ => .error .unneededValue
      | false, some text => do (← p.settle).give slot text
      | false, none => return { ← p.settle with pending := some (slot, none) }

/-- Takes options of one character each. -/
def Progress.shortOptions (p : Progress) : List Char → Except UsageError Progress
  | [] => .ok p
  | 'v' :: cs => do (← p.flag .verbose).shortOptions cs
  | 'h' :: _ => do
    let _ ← p.settle
    throw .help
  | 'V' :: _ => do
    let _ ← p.settle
    throw .version
  | _ => .error .unknownArgument

/-- Takes a path. -/
def Progress.path (p : Progress) (text : String) : Except UsageError Progress :=
  if p.hasPath then .error .unknownArgument
  else return { ← p.settle with pending := some (.path, some text), hasPath := true }

/-- The name and the value of an option of the form `name=value`. -/
def splitOption (cs : List Char) : String × Option String :=
  match cs.dropWhile (· != '=') with
  | [] => (String.ofList cs, none)
  | _ :: value => (String.ofList (cs.takeWhile (· != '=')), some (String.ofList value))

/-- Takes an argument. -/
def Progress.argument (p : Progress) (arg : String) : Except UsageError Progress :=
  if p.onlyPaths then p.path arg
  else
    match arg.toList with
    | ['-', '-'] => .ok { p with onlyPaths := true }
    | '-' :: '-' :: cs =>
      let (name, value) := splitOption cs
      p.longOption name value
    | '-' :: c :: cs => p.shortOptions (c :: cs)
    | _ =>
      match p.pending with
      | some (slot, none) => .ok { p with pending := some (slot, some arg) }
      | _ => p.path arg

/-- Sets what is not set yet and has a variable in the environment. -/
def Progress.environment (env : String → Option String) (p : Progress) (slot : Slot) :
    Except UsageError Progress :=
  match slot.environmentName?.bind env with
  | some text => if slot ∈ p.given then .ok p else p.give slot text
  | none => .ok p

end CommandLine

/-- The settings that arguments and environment ask for. -/
def Settings.ofArguments (args : List String) (env : String → Option String) :
    Except UsageError Settings := do
  let p ← args.foldlM CommandLine.Progress.argument {}
  let p ← p.settle
  let p ← Slot.all.foldlM (CommandLine.Progress.environment env) p
  if Slot.path ∈ p.given then return p.settings else throw .missingPath

end TaggedImage
