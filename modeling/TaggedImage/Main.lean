import TaggedImage.CommandLine.Run

/-!
# The program

Reads the environment and the file that the arguments name, and writes what a run of the inspector
leaves behind.
-/

/-- The bytes of a file, if it can be read. -/
def TaggedImage.CommandLine.readFile? (path : String) : IO (Option ByteArray) := do
  try return some (← IO.FS.readBinFile path)
  catch _ => return none

open TaggedImage

/-- The program. -/
def main (args : List String) : IO UInt32 := do
  let environment ← (Slot.all.filterMap Slot.environmentName?).mapM fun name => do
    return (name, ← IO.getEnv name)
  let env (name : String) : Option String := (environment.lookup name).join
  let file ←
    match Settings.ofArguments args env with
    | .ok s => CommandLine.readFile? s.path
    | .error _ => pure none
  let outcome := CommandLine.run args env fun _ => file
  IO.print outcome.output
  return .ofNat outcome.code
