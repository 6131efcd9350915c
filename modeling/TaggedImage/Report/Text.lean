import TaggedImage.Report
import TaggedImage.Text.Basic

/-!
# Reports as text

`Report.text` writes a report in lines for a reader; sub-directories are set in under the directory
that refers to them.
-/

namespace TaggedImage

/-- The name of a byte order. -/
def ByteOrder.name : ByteOrder → String
  | little => "little-endian"
  | big => "big-endian"

/-- The name of the format with offsets of this width. -/
def OffsetWidth.formatName : OffsetWidth → String
  | narrow => "TIFF"
  | wide => "BigTIFF"

/-- The lines, each ended. -/
def Text.unlines (lines : List String) : String := String.join (lines.map (· ++ "\n"))

/-- The line of a field. -/
def FieldReport.line (f : FieldReport) : String :=
  let value := match f.value with
    | some value => s!" = {value}"
    | none => ""
  s!"  {Text.alignRight 5 (toString f.tag)} {Text.alignLeft 28 f.name} {Text.alignLeft 9 f.type} "
    ++ s!"x{f.count}{value}"

/-- The line of the units. -/
def UnitReport.line (u : UnitReport) : String :=
  s!"  {u.count} {u.layout}: {u.width}x{u.height}, {u.samples} x {u.bits}-bit, {u.compression}"

mutual

/-- The lines of a directory. -/
def DirectoryReport.lines : DirectoryReport → List String
  | .mk index offset _ fields units subDirectories errors =>
    let title := match index with
      | some index => s!"Directory {index} @ {offset}"
      | none => s!"Directory @ {offset}"
    title :: fields.map FieldReport.line ++ units.toList.map UnitReport.line
      ++ errors.map ("  ! " ++ ·) ++ SubDirectoryReport.linesOf subDirectories

/-- The lines of the sub-directories. -/
def SubDirectoryReport.linesOf : List SubDirectoryReport → List String
  | [] => []
  | .mk via position directory :: rest =>
    s!"  {via}[{position}]:" :: directory.lines.map ("    " ++ ·) ++ SubDirectoryReport.linesOf rest

end

/-- The lines of a report. -/
def Report.lines (r : Report) : List String :=
  s!"{r.source} ({r.order.name}, {r.width.formatName})" ::
      r.directories.flatMap DirectoryReport.lines
    ++ s!"{r.directories.length} directories, stopped at {Report.stopText r.stop}"
    :: r.error.toList.map ("error: " ++ ·)

/-- The report in lines. -/
def Report.text (r : Report) : String := Text.unlines r.lines

end TaggedImage
