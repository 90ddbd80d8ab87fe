import Standin.Json.Writer
import Standin.Library

/-!
# Summaries of a run
-/

namespace Standin

namespace Report

/-- The members of a report in JSON. -/
def members (r : Report) : List (String × Json) :=
  [("synthesized", .int r.synthesized),
    ("skipped", .array (r.skipped.map fun s =>
      .object [("method", .string s.method.text), ("error", .string s.error.message)])),
    ("methods_reading_arrays", .int r.readingArrays),
    ("methods_writing_arrays", .int r.writingArrays)]

end Report

/-- What there is to say about a program whose library was replaced. -/
structure Summary where
  /-- Where the program was written. -/
  output : String
  abstraction : AbstractionKind
  report : Report
  /-- The types stored into the shared field, if there is one. -/
  flowTypes : List String

namespace Summary

def toJson (s : Summary) : Json :=
  .object <|
    [("output", .string s.output), ("abstraction", .string s.abstraction.text)] ++
      s.report.members ++ [("flow_types", .array (s.flowTypes.map .string))]

def lines (s : Summary) : List String :=
  ["wrote: " ++ s.output,
    "  abstraction: " ++ s.abstraction.text,
    "  synthesized: " ++ s.report.synthesized.repr,
    "  skipped: " ++ s.report.skipped.length.repr,
    "  methods_reading_arrays: " ++ s.report.readingArrays.repr,
    "  methods_writing_arrays: " ++ s.report.writingArrays.repr] ++
  (if s.flowTypes.isEmpty then [] else ["  flow_types: " ++ Text.joined ", " s.flowTypes]) ++
  s.report.skipped.map fun k => "skipped " ++ k.method.text ++ ": " ++ k.error.message

def text (s : Summary) : String :=
  String.join (s.lines.map (· ++ "\n"))

end Summary

end Standin
