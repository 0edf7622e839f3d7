import SourcePages.Path.Extension
import SourcePages.Project.Sources
import SourcePages.Report.Basic

/-!
Documenting source files. Each file gets one page; of several files with the same page the first
gets it. A file that fails does not stop the others.
-/

namespace SourcePages

def writePage (t : FileTree) (output : Path) (text : String) : FileTree × Except FileFault Unit :=
  let write (t : FileTree) : FileTree × Except FileFault Unit :=
    match t.write output (Text.encode text.toList) with
    | .ok t => (t, .ok ())
    | .error e => (t, .error (.write output e))
  match output.parent? with
  | none => write t
  | some parent =>
    match t.makeDirectories parent with
    | (t, .ok ()) => write t
    | (t, .error e) => (t, .error (.createDir parent e))

def Document.ofUnits (source output : Path) (units : List ExportedUnit) : Document where
  source := source
  output := output
  units := units.length
  types := countKind .type units
  functions := units.length - countKind .type units

structure Collision where
  file : SourceFile
  output : Path
  owner : String
  deriving DecidableEq, Repr

def Collision.message (c : Collision) : String :=
  "Output " ++ c.output.text ++ " collides with " ++ c.owner

structure PageOwner where
  output : Path
  owner : String

structure Split where
  unique : List SourceFile := []
  collided : List Collision := []

/-- Gives pages to files in turn; a file whose page is given already collides with its owner. -/
def splitFiles (outputRoot : Path) (given : List PageOwner) : List SourceFile → Split
  | [] => {}
  | file :: rest =>
    let output := pagePath outputRoot ⟨file.relative⟩
    match given.find? (·.output.same output) with
    | some page =>
      let after := splitFiles outputRoot given rest
      { after with collided := ⟨file, output, page.owner⟩ :: after.collided }
    | none =>
      let after := splitFiles outputRoot (given ++ [⟨output, file.relative⟩]) rest
      { after with unique := file :: after.unique }

structure Result where
  file : SourceFile
  outcome : Except FileFault Document

def Result.document? (r : Result) : Option Document :=
  match r.outcome with
  | .ok d => some d
  | .error _ => none

def Result.fault? (r : Result) : Option FileFault :=
  match r.outcome with
  | .ok _ => none
  | .error e => some e

def SourceFile.failure (file : SourceFile) (error : String) : Failure :=
  ⟨⟨file.relative⟩, error⟩

def SourceFile.skipped (file : SourceFile) (error : String) : Notice :=
  .skipping file.relative error

structure RunOutcome where
  tree : FileTree
  report : Report
  /-- The files that the run has dealt with, in the order in which it was done with them. -/
  settled : List SourceFile
  notices : List Notice

namespace Project

def process (p : Project) (t : FileTree) (file : SourceFile) :
    FileTree × Except FileFault Document :=
  match t.read file.path with
  | .error e => (t, .error (.read file.path e))
  | .ok bytes =>
    let units := extract (String.ofList (Text.decodeLossy bytes))
    let relative : Path := ⟨file.relative⟩
    let output := pagePath p.config.outputRoot relative
    let document := Document.ofUnits relative output units
    if p.config.dryRun then (t, .ok document)
    else
      match writePage t output (page p.repository.baseUrl file.relative units) with
      | (t, .ok ()) => (t, .ok document)
      | (t, .error e) => (t, .error e)

def processAll (p : Project) (t : FileTree) : List SourceFile → FileTree × List Result
  | [] => (t, [])
  | file :: rest =>
    let (t, outcome) := p.process t file
    let (t, results) := p.processAll t rest
    (t, ⟨file, outcome⟩ :: results)

def report (p : Project) (files : List SourceFile) (split : Split) (results : List Result) :
    Report :=
  let documents := results.filterMap Result.document?
  let failures :=
    split.collided.map (fun c => c.file.failure c.message) ++
      results.filterMap fun r => r.fault?.map fun e => r.file.failure e.message
  { root := p.config.root
    outputDir := p.config.outputRoot
    repository := p.repository
    includes := p.patterns
    documents := documents
    failures := failures
    stats := Stats.ofResults files.length documents failures
    metadata := Metadata.unclocked "" p.config.dryRun }

def run (p : Project) (t : FileTree) (files : List SourceFile) : RunOutcome :=
  let split := splitFiles p.config.outputRoot [] files
  let (after, results) := p.processAll t split.unique
  { tree := after
    report := p.report files split results
    settled := split.collided.map (·.file) ++ results.map (·.file)
    notices :=
      .generating p.repository.name p.repository.baseUrl ::
        split.collided.map (fun c => c.file.skipped c.message) ++
        results.filterMap fun r => r.fault?.map fun e => r.file.skipped e.message }

def generate (p : Project) (t : FileTree) : RunOutcome :=
  p.run t (p.sources t)

end Project

end SourcePages
