import SourcePages.FileTree.Fault
import SourcePages.Path.Basic

namespace SourcePages

inductive Level where
  | error
  | warn
  | info
  | debug
  | trace
  deriving DecidableEq, Repr

def Level.rank : Level → Nat
  | .error => 1
  | .warn => 2
  | .info => 3
  | .debug => 4
  | .trace => 5

def Level.name : Level → String
  | .error => "ERROR"
  | .warn => "WARN"
  | .info => "INFO"
  | .debug => "DEBUG"
  | .trace => "TRACE"

inductive Notice where
  | looking (patterns : List String)
  | unreadable (path : Path) (fault : IoFault)
  | ignoredDirectory (relative : String)
  | ignoredMatch (relative : String)
  | found (relative : String)
  | generating (name : Option String) (baseUrl : String)
  | skipping (relative error : String)
  | wrote (written found units : Nat) (outputDir : Path) (durationMs : Nat)
  deriving DecidableEq, Repr

def Notice.level : Notice → Level
  | .unreadable _ _ => .warn
  | .skipping _ _ => .warn
  | .ignoredDirectory _ => .debug
  | .ignoredMatch _ => .debug
  | .found _ => .debug
  | .looking _ => .info
  | .generating _ _ => .info
  | .wrote _ _ _ _ _ => .info

def Notice.message : Notice → String
  | .looking patterns => "Looking for docs in " ++ Text.joinWith ", " patterns ++ "..."
  | .unreadable path fault =>
    "Skipping unreadable entry: IO error for operation on " ++ path.text ++ ": " ++ fault.message
  | .ignoredDirectory relative => "Skipping ignored directory " ++ relative
  | .ignoredMatch relative => "Skipping ignored match " ++ relative
  | .found relative => "Found " ++ relative
  | .generating name baseUrl =>
    "Generating docs for " ++ name.getD "<unnamed>" ++ " hosted at " ++ baseUrl
  | .skipping relative error => "Skipping " ++ relative ++ ": " ++ error
  | .wrote written all units outputDir durationMs =>
    "Wrote " ++ toString written ++ " of " ++ toString all ++ " files (" ++ toString units ++
      " exported units) to " ++ outputDir.text ++ " in " ++ toString durationMs ++ "ms"

end SourcePages
