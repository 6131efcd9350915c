import TaggedImage.CommandLine.Arguments
import TaggedImage.Report.Json
import TaggedImage.Stream.Reader

/-!
# Runs of the inspector

`CommandLine.run` does what a command line asks for: it reads a file through a cache and writes a
report on it.
-/

namespace TaggedImage

namespace CommandLine

/-- What a run leaves behind. -/
structure Outcome where
  /-- The exit code: 0 after a report, 1 if none can be made, 2 if none was properly asked for, 101
  if the program stopped. -/
  code : Nat
  /-- What is written. -/
  output : String
  deriving DecidableEq, Inhabited

/-- The name of the program and its version. -/
def versionText : String := "tiffnav 0.1.0\n"

/-- The forms of a command line. -/
def helpText : String :=
  Text.unlines (["Inspect the directory graph of a TIFF or BigTIFF file", "",
    "Usage: tiffnav [OPTIONS] <PATH>", "", "Options:"]
    ++ (Slot.all.filterMap Slot.optionName?).map ("      --" ++ ·))

/-- What is in the file with these bytes. -/
def report (s : Settings) (file : ByteArray) : Except Fault Report := do
  match Reader.ofSource file s.path with
  | .error e => throw (.stream e)
  | .ok reader =>
    let stream : Cached (Reader ByteArray) := .ofStream reader s.blockSize s.cacheBlocks
    let browser ← Browser.ofStream stream s.options .standard
    let options : ReportOptions :=
      { subDirectories := !s.noSubDirectories, values := !s.noValues
        maxDirectories := s.maxDirectories }
    match Report.ofBrowser options browser with
    | .ok r _ => return r
    | .error fault _ => throw fault

/-- A report as the settings ask for it. -/
def render (format : ReportFormat) (r : Report) : String :=
  match format with
  | .text => r.text
  | .json => r.toJson.pretty ++ "\n"

/-- Does what the settings ask for; `file?` gives the bytes of a file that can be read. -/
def inspect (s : Settings) (file? : String → Option ByteArray) : Outcome :=
  match s.flaw?, file? s.path with
  | none, some file =>
    match report s file with
    | .ok r => ⟨0, render s.format r⟩
    | .error fault => ⟨if fault.stops then 101 else 1, ""⟩
  | _, _ => ⟨1, ""⟩

/-- Does what a command line asks for. -/
def run (args : List String) (env : String → Option String)
    (file? : String → Option ByteArray) : Outcome :=
  match Settings.ofArguments args env with
  | .ok s => inspect s file?
  | .error .help => ⟨0, helpText⟩
  | .error .version => ⟨0, versionText⟩
  | .error _ => ⟨2, ""⟩

end CommandLine

end TaggedImage
