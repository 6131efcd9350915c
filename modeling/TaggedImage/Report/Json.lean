import TaggedImage.Report.Text
import TaggedImage.Text.Json

/-!
# Reports as JSON

`Report.toJson` gives the JSON value of a report. Members that would say nothing are left out.
-/

namespace TaggedImage

/-- A member that is left out if there is no value. -/
def Json.optional {α : Type} (key : String) (f : α → Json) (value : Option α) :
    List (String × Json) :=
  value.toList.map fun a => (key, f a)

/-- A member that is left out if the list is empty. -/
def Json.nonEmpty (key : String) (items : List Json) : List (String × Json) :=
  if items.isEmpty then [] else [(key, .array items)]

/-- The JSON value of a field. -/
def FieldReport.toJson (f : FieldReport) : Json :=
  .object ([("tag", .number f.tag.toNat), ("name", .text f.name), ("type", .text f.type),
    ("count", .number f.count)] ++ Json.optional "value" .text f.value)

/-- The JSON value of the units. -/
def UnitReport.toJson (u : UnitReport) : Json :=
  .object [("layout", .text u.layout), ("width", .number u.width), ("height", .number u.height),
    ("samples_per_pixel", .number u.samples), ("bits_per_sample", .number u.bits),
    ("compression", .text u.compression), ("unit_count", .number u.count),
    ("units", .array (u.units.map fun p => .array [.number p.1, .number p.2]))]

mutual

/-- The JSON value of a directory. -/
def DirectoryReport.toJson : DirectoryReport → Json
  | .mk index offset next fields units subDirectories errors =>
    .object (Json.optional "index" .number index
      ++ [("offset", .number offset), ("next_offset", .number next),
        ("fields", .array (fields.map FieldReport.toJson))]
      ++ Json.optional "units" UnitReport.toJson units
      ++ Json.nonEmpty "sub_directories" (SubDirectoryReport.toJsonAll subDirectories)
      ++ Json.nonEmpty "errors" (errors.map .text))

/-- The JSON values of the sub-directories. -/
def SubDirectoryReport.toJsonAll : List SubDirectoryReport → List Json
  | [] => []
  | .mk via position directory :: rest =>
    .object [("via", .text via), ("position", .number position), ("directory", directory.toJson)]
      :: SubDirectoryReport.toJsonAll rest

end

/-- The JSON value of a report. -/
def Report.toJson (r : Report) : Json :=
  .object ([("source", .text r.source), ("byte_order", .text r.order.name),
    ("bigtiff", .bool (r.width == .wide)),
    ("directories", .array (r.directories.map DirectoryReport.toJson)),
    ("stop_reason", .text (Report.stopText r.stop))]
    ++ Json.optional "error" .text r.error)

end TaggedImage
