import SourcePages.Command.Arguments
import SourcePages.Command.Clock
import SourcePages.Command.Logging
import SourcePages.Project.Run

namespace SourcePages.Command

inductive Finish where
  | stopped (why : Stop)
  | failed (a : Arguments) (fault : ConfigFault)
  | done (a : Arguments) (scanned : List Notice) (outcome : RunOutcome)

def run [Glob.Engine] (t : FileTree) (a : Arguments) : Finish :=
  match Project.load t a.toConfig with
  | .error fault => .failed a fault
  | .ok p =>
    let scan := p.scan t
    .done a scan.notices (p.run t (sortFiles scan.files))

def execute [Glob.Engine] (t : FileTree) (args : List String) : Finish :=
  match readArguments args with
  | .error why => .stopped why
  | .ok a => run t a

def versionText : String := "exportdocs " ++ releaseVersion

/-- A help text of this library. The options are those of the command; its own help is worded by the
reader of its arguments and says more about each. -/
def usageText : String :=
  "Usage: exportdocs [OPTIONS] [PATH]\n\nGenerate Markdown reference docs from exported " ++
  "TypeScript declarations\n\nOptions:\n" ++
  "      --config <CONFIG>\n      --package <PACKAGE>\n  -o, --out-dir <OUT_DIR>\n" ++
  "      --include <INCLUDE>\n      --ignore <IGNORE>\n      --skip-deps\n" ++
  "      --respect-gitignore\n      --dry-run\n  -r, --report <json|yaml|summary>\n" ++
  "      --strict\n      --progress\n  -v, --verbose\n      --threads <THREADS>\n" ++
  "  -h, --help\n  -V, --version"

def indentTail (text : String) : String :=
  Text.joinWith "\n       " (Text.lines text)

def causeLines (causes : List String) : List String :=
  causes.zipIdx.map fun (cause, i) =>
    let number := toString i
    String.ofList (List.replicate (5 - number.length) ' ') ++ number ++ ": " ++ indentTail cause

def failureText (a : Arguments) (fault : ConfigFault) : String :=
  let causes := ("Config error: " ++ fault.message) :: fault.message :: fault.cause?.toList
  "Error: Failed to load project in " ++ a.path.text ++ "\n\nCaused by:\n" ++
    Text.joinWith "\n" (causeLines causes)

/-- An engine that gives up takes the command with it. -/
def faultStatus : ConfigFault → Nat
  | .glob .abort => 101
  | _ => 1

def tells [Path.Encoding] (a : Arguments) (r : Report) : Bool :=
  a.report.all r.isWritable

def unwritableText (format : ReportFormat) : String :=
  let cause := "path contains invalid UTF-8 characters"
  "Error: " ++ String.ofList (format.name.toList.map Char.toUpper) ++ " serialization error: " ++
    cause ++ "\n\nCaused by:\n    " ++ cause

namespace Finish

def status [Path.Encoding] : Finish → Nat
  | .stopped .usage => 2
  | .stopped _ => 0
  | .failed _ fault => faultStatus fault
  | .done a _ outcome =>
    if !tells a outcome.report || (a.has .strict && outcome.report.hasFailures) then 1 else 0

def tree (start : FileTree) : Finish → FileTree
  | .done _ _ outcome => outcome.tree
  | _ => start

def output [Path.Encoding] (c : Clock) : Finish → String
  | .stopped .version => versionText ++ "\n"
  | .stopped .help => usageText ++ "\n"
  | .stopped .usage => ""
  | .failed _ _ => ""
  | .done a _ outcome =>
    match a.report with
    | some format =>
      if outcome.report.isWritable format then (c.stamp outcome.report).format format ++ "\n" else ""
    | none => ""

def notices (c : Clock) : Finish → List Notice
  | .done _ scanned outcome =>
    let r := c.stamp outcome.report
    scanned ++ outcome.notices ++
      [.wrote r.stats.written r.stats.found r.stats.units r.outputDir r.metadata.durationMs]
  | _ => []

def shownNotices (c : Clock) (environment : Option String) (f : Finish) : List Notice :=
  match f with
  | .done a _ _ => shown (limit (a.has .verbose) environment) (f.notices c)
  | _ => []

/-- What is printed about an error. What an engine says when it gives up is not fixed, and wrong
arguments are told in words of this library. -/
def errorText [Path.Encoding] : Finish → String
  | .failed _ (.glob .abort) => ""
  | .failed a fault => failureText a fault
  | .stopped .usage => "error: wrong arguments\n\n" ++ usageText
  | .done a _ outcome =>
    match a.report with
    | some format => if outcome.report.isWritable format then "" else unwritableText format
    | none => ""
  | _ => ""

end Finish

end SourcePages.Command
