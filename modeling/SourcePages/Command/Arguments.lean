import SourcePages.Project.Config
import SourcePages.Report.Text

/-!
The arguments of the command. They are read from left to right, and the first that is wrong, or that
asks for something else than a run, decides.
-/

namespace SourcePages.Command

inductive Flag where
  | skipDeps
  | respectGitignore
  | dryRun
  | strict
  | progress
  | verbose
  deriving DecidableEq, Repr

inductive Setting where
  | config
  | package
  | outDir
  | include
  | ignore
  | report
  | threads
  deriving DecidableEq, Repr

def Flag.name : Flag → String
  | .skipDeps => "skip-deps"
  | .respectGitignore => "respect-gitignore"
  | .dryRun => "dry-run"
  | .strict => "strict"
  | .progress => "progress"
  | .verbose => "verbose"

def Setting.name : Setting → String
  | .config => "config"
  | .package => "package"
  | .outDir => "out-dir"
  | .include => "include"
  | .ignore => "ignore"
  | .report => "report"
  | .threads => "threads"

def Flag.named? (name : String) : Option Flag :=
  [Flag.skipDeps, .respectGitignore, .dryRun, .strict, .progress, .verbose].find? (·.name = name)

def Setting.named? (name : String) : Option Setting :=
  [Setting.config, .package, .outDir, .include, .ignore, .report, .threads].find? (·.name = name)

structure Arguments where
  path : Path := ⟨"."⟩
  config : Path := ⟨"tsconfig.json"⟩
  package : Path := ⟨"package.json"⟩
  outDir : Path := ⟨"docs"⟩
  includes : List String := []
  ignores : List String := []
  flags : List Flag := []
  report : Option ReportFormat := none
  threads : Nat := 0
  deriving DecidableEq, Repr

inductive Stop where
  | usage
  | help
  | version
  deriving DecidableEq, Repr

structure Reading where
  given : Arguments := {}
  hasPath : Bool := false
  settled : List Setting := []
  awaiting : Option Setting := none
  onlyPaths : Bool := false

def count? (text : String) : Option Nat :=
  let digits := match text.toList with
    | '+' :: rest => rest
    | rest => rest
  if digits.isEmpty || !digits.all Char.isDigit then none
  else
    let n := Json.decimalValue digits
    if n < Nat.pow 2 64 then some n else none

namespace Reading

def settle (r : Reading) (s : Setting) : Except Stop Reading :=
  if r.settled.contains s then .error .usage else .ok { r with settled := s :: r.settled }

def pathValue (value : String) : Except Stop Path :=
  if value = "" then .error .usage else .ok ⟨value⟩

def set (r : Reading) (s : Setting) (value : String) : Except Stop Reading := do
  let r := { r with awaiting := none }
  match s with
  | .include => return { r with given.includes := r.given.includes ++ [value] }
  | .ignore => return { r with given.ignores := r.given.ignores ++ [value] }
  | .config =>
    let path ← pathValue value
    return { ← r.settle s with given.config := path }
  | .package =>
    let path ← pathValue value
    return { ← r.settle s with given.package := path }
  | .outDir =>
    let path ← pathValue value
    return { ← r.settle s with given.outDir := path }
  | .report =>
    match ReportFormat.named? value with
    | some format => return { ← r.settle s with given.report := some format }
    | none => throw .usage
  | .threads =>
    match count? value with
    | some n => return { ← r.settle s with given.threads := n }
    | none => throw .usage

def raise (r : Reading) (f : Flag) : Except Stop Reading :=
  if r.given.flags.contains f then .error .usage
  else .ok { r with given.flags := r.given.flags ++ [f] }

def setPath (r : Reading) (value : String) : Except Stop Reading := do
  if r.hasPath then throw .usage
  let path ← pathValue value
  return { r with given.path := path, hasPath := true }

def long (r : Reading) (text : List Char) : Except Stop Reading :=
  let name := String.ofList (text.takeWhile (· ≠ '='))
  let value? := match text.dropWhile (· ≠ '=') with
    | _ :: value => some (String.ofList value)
    | [] => none
  match Setting.named? name, value? with
  | some s, some value => r.set s value
  | some s, none => .ok { r with awaiting := some s }
  | none, some _ => .error .usage
  | none, none =>
    if name = "help" then .error .help
    else if name = "version" then .error .version
    else
      match Flag.named? name with
      | some f => r.raise f
      | none => .error .usage

def attached (r : Reading) (s : Setting) : List Char → Except Stop Reading
  | [] => .ok { r with awaiting := some s }
  | '=' :: value => r.set s (String.ofList value)
  | value => r.set s (String.ofList value)

def letters (r : Reading) : List Char → Except Stop Reading
  | [] => .ok r
  | c :: rest =>
    match c with
    | 'o' => r.attached .outDir rest
    | 'r' => r.attached .report rest
    | 'h' => .error .help
    | 'V' => .error .version
    | 'v' =>
      match r.raise .verbose with
      | .ok r => r.letters rest
      | .error e => .error e
    | _ => .error .usage

/-- Reads an argument. A value does not begin with a dash, unless it is one. -/
def step (r : Reading) (arg : String) : Except Stop Reading :=
  if r.onlyPaths then r.setPath arg
  else
    match r.awaiting, arg.toList with
    | some s, text =>
      if text.head? = some '-' && text.length ≠ 1 then .error .usage else r.set s arg
    | none, ['-', '-'] => .ok { r with onlyPaths := true }
    | none, '-' :: '-' :: text => r.long text
    | none, '-' :: c :: rest => r.letters (c :: rest)
    | none, _ => r.setPath arg

end Reading

def readArguments (args : List String) : Except Stop Arguments := do
  let r ← args.foldlM Reading.step {}
  if r.awaiting.isSome then throw .usage
  return r.given

namespace Arguments

def has (a : Arguments) (f : Flag) : Bool := a.flags.contains f

def toConfig (a : Arguments) : Config where
  root := a.path
  projectFile := a.config
  packageFile := a.package
  outputDir := a.outDir
  includes? := if a.includes.isEmpty then none else some a.includes
  ignores := a.ignores
  skipDeps := a.has .skipDeps
  respectGitignore := a.has .respectGitignore
  threads := a.threads
  dryRun := a.has .dryRun

end Arguments

end SourcePages.Command
