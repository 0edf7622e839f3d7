import SourcePages.Json.Decode
import SourcePages.Report.Basic

namespace SourcePages

open Json (Value Decoder FieldReader)

def Kind.name : Kind → String
  | .type => "type"
  | .function => "function"

def Kind.named? (name : String) : Option Kind :=
  if name = "type" then some .type
  else if name = "function" then some .function
  else none

def Kind.decode : Decoder Kind :=
  Decoder.variant Kind.named? "`type` or `function`"

def Span.encode (s : Span) : Value :=
  .object [("start", Value.natural s.start), ("end", Value.natural s.stop)]

def Span.decode : Decoder Span :=
  Decoder.record "struct LineSpan" ["start", "end"] <|
    FieldReader.done Span.mk
      |>.andField (.field "start" (.natural "usize"))
      |>.andField (.field "end" (.natural "usize"))

def unlessEmpty (name : String) (items : List Value) : List (String × Value) :=
  if items.isEmpty then [] else [(name, .array items)]

def ExportedUnit.encode (u : ExportedUnit) : Value :=
  .object <|
    [("kind", Value.text u.kind.name), ("signature_lines", Value.texts u.signature)] ++
      unlessEmpty "doc_lines" (u.docs.map Value.text) ++
      [("span", u.span.encode)]

def ExportedUnit.decode : Decoder ExportedUnit :=
  Decoder.record "struct ExportedUnit" ["kind", "signature_lines", "doc_lines", "span"] <|
    FieldReader.done ExportedUnit.mk
      |>.andField (.field "kind" Kind.decode)
      |>.andField (.field "signature_lines" (.list .text))
      |>.andField (.fieldOr [] "doc_lines" (.list .text))
      |>.andField (.field "span" Span.decode)

def Repository.encode (r : Repository) : Value :=
  .object <| ("base_url", Value.text r.baseUrl) ::
    match r.name with
    | some name => [("name", Value.text name)]
    | none => []

def Repository.decode : Decoder Repository :=
  Decoder.record "struct RepositoryContext" ["base_url", "name"] <|
    FieldReader.done Repository.mk
      |>.andField (.field "base_url" .text)
      |>.andField (.fieldOr none "name" (.optional .text))

def Path.encode (p : Path) : Value := Value.text p.text

def Path.decode : Decoder Path := fun v => (Decoder.path v).map Path.mk

def Document.encode (d : Document) : Value :=
  .object [("source", d.source.encode), ("output", d.output.encode),
    ("units", Value.natural d.units), ("types", Value.natural d.types),
    ("functions", Value.natural d.functions)]

def Document.decode : Decoder Document :=
  Decoder.record "struct GeneratedDoc" ["source", "output", "units", "types", "functions"] <|
    FieldReader.done Document.mk
      |>.andField (.field "source" Path.decode)
      |>.andField (.field "output" Path.decode)
      |>.andField (.field "units" (.natural "usize"))
      |>.andField (.field "types" (.natural "usize"))
      |>.andField (.field "functions" (.natural "usize"))

def Failure.encode (f : Failure) : Value :=
  .object [("source", f.source.encode), ("error", Value.text f.error)]

def Failure.decode : Decoder Failure :=
  Decoder.record "struct FailedFile" ["source", "error"] <|
    FieldReader.done Failure.mk
      |>.andField (.field "source" Path.decode)
      |>.andField (.field "error" .text)

def Stats.encode (s : Stats) : Value :=
  .object [("files_found", Value.natural s.found), ("files_written", Value.natural s.written),
    ("files_failed", Value.natural s.failed), ("total_units", Value.natural s.units),
    ("type_units", Value.natural s.types), ("function_units", Value.natural s.functions)]

def Stats.decode : Decoder Stats :=
  Decoder.record "struct RunStats" ["files_found", "files_written", "files_failed", "total_units",
      "type_units", "function_units"] <|
    FieldReader.done Stats.mk
      |>.andField (.field "files_found" (.natural "usize"))
      |>.andField (.field "files_written" (.natural "usize"))
      |>.andField (.field "files_failed" (.natural "usize"))
      |>.andField (.field "total_units" (.natural "usize"))
      |>.andField (.field "type_units" (.natural "usize"))
      |>.andField (.field "function_units" (.natural "usize"))

def Metadata.encode (m : Metadata) : Value :=
  .object [("duration_ms", Value.natural m.durationMs),
    ("files_per_second", Value.real m.filesPerSecond), ("timestamp", Value.text m.timestamp),
    ("tool_version", Value.text m.toolVersion), ("dry_run", Value.bool m.dryRun)]

def Metadata.decode : Decoder Metadata :=
  Decoder.record "struct RunMetadata" ["duration_ms", "files_per_second", "timestamp",
      "tool_version", "dry_run"] <|
    FieldReader.done Metadata.mk
      |>.andField (.field "duration_ms" (.natural "u64"))
      |>.andField (.field "files_per_second" .real)
      |>.andField (.field "timestamp" .text)
      |>.andField (.field "tool_version" .text)
      |>.andField (.fieldOr false "dry_run" .bool)

def Report.encode (r : Report) : Value :=
  .object <|
    [("root", r.root.encode), ("output_dir", r.outputDir.encode),
      ("repository", r.repository.encode), ("include", Value.texts r.includes),
      ("documents", .array (r.documents.map Document.encode))] ++
      unlessEmpty "failures" (r.failures.map Failure.encode) ++
      [("stats", r.stats.encode), ("metadata", r.metadata.encode)]

def Report.decode : Decoder Report :=
  Decoder.record "struct RunReport" ["root", "output_dir", "repository", "include", "documents",
      "failures", "stats", "metadata"] <|
    FieldReader.done Report.mk
      |>.andField (.field "root" Path.decode)
      |>.andField (.field "output_dir" Path.decode)
      |>.andField (.field "repository" Repository.decode)
      |>.andField (.field "include" (.list .text))
      |>.andField (.field "documents" (.list Document.decode))
      |>.andField (.fieldOr [] "failures" (.list Failure.decode))
      |>.andField (.field "stats" Stats.decode)
      |>.andField (.field "metadata" Metadata.decode)

def Report.toJson (r : Report) : String := r.encode.pretty

end SourcePages
