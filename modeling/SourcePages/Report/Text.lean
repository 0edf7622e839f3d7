import SourcePages.Report.Json
import SourcePages.Yaml.Block

namespace SourcePages

inductive ReportFormat where
  | json
  | yaml
  | summary
  deriving DecidableEq, Repr

def ReportFormat.name : ReportFormat → String
  | .json => "json"
  | .yaml => "yaml"
  | .summary => "summary"

def ReportFormat.named? (name : String) : Option ReportFormat :=
  [ReportFormat.json, .yaml, .summary].find? (·.name = name)

namespace Report

def toYaml (r : Report) : String := Yaml.document r.encode

def failureSection (failures : List Failure) : String :=
  if failures.isEmpty then ""
  else
    "Failures:\n" ++ String.join (failures.map fun f =>
      "  " ++ f.source.text ++ ": " ++ f.error ++ "\n") ++ "\n"

def toSummary (r : Report) : String :=
  "Documentation Summary\n=====================\n" ++
  "Root: " ++ r.root.text ++ "\n" ++
  "Repository: " ++ r.repository.baseUrl ++ "\n" ++
  "Include: " ++ Text.joinWith ", " r.includes ++ "\n" ++
  "Output: " ++ r.outputDir.text ++ (if r.metadata.dryRun then " (dry run)" else "") ++ "\n\n" ++
  "Files Found: " ++ toString r.stats.found ++ "\n" ++
  "- Written: " ++ toString r.stats.written ++ "\n" ++
  "- Failed: " ++ toString r.stats.failed ++ "\n\n" ++
  "Exported Units: " ++ toString r.stats.units ++ "\n" ++
  "- Types: " ++ toString r.stats.types ++ "\n" ++
  "- Functions: " ++ toString r.stats.functions ++ "\n\n" ++
  failureSection r.failures ++
  "Duration: " ++ toString r.metadata.durationMs ++ "ms (" ++
    r.metadata.filesPerSecond.toTwoPlaces ++ " files/sec)\n" ++
  "Timestamp: " ++ r.metadata.timestamp ++ "\n" ++
  "Tool Version: " ++ r.metadata.toolVersion ++ "\n"

def paths (r : Report) : List Path :=
  r.root :: r.outputDir :: r.documents.flatMap (fun d => [d.source, d.output]) ++
    r.failures.map (·.source)

/-- Whether a report can be written in a format. Only the summary shows paths that are no texts. -/
def isWritable [Path.Encoding] (r : Report) : ReportFormat → Bool
  | .summary => true
  | _ => r.paths.all Path.Encoding.isText

def format (r : Report) : ReportFormat → String
  | .json => r.toJson
  | .yaml => r.toYaml
  | .summary => r.toSummary

end Report

end SourcePages
