import SourcePages.FileTree.Fault
import SourcePages.Filter.Gitignore
import SourcePages.Json5.Fault
import SourcePages.Path.Basic

namespace SourcePages

inductive ConfigFault where
  | read (path : Path) (fault : IoFault)
  | parse (path : Path) (fault : Json5.Fault)
  | missingHomepage (path : Path)
  | missingInclude (path : Path)
  | glob (refusal : Glob.Refusal)
  | gitignore (path : Path) (fault : GitignoreFault)
  deriving DecidableEq, Repr

inductive FileFault where
  | read (path : Path) (fault : IoFault)
  | createDir (path : Path) (fault : IoFault)
  | write (path : Path) (fault : IoFault)
  deriving DecidableEq, Repr

def LineFault.message : LineFault → String
  | .glob e => e.message
  | .notText => IoFault.notText.message
  | .isDirectory => IoFault.isDirectory.message

def GitignoreFault.message (path : Path) : GitignoreFault → String
  | .lines bad => Text.joinWith "\n" (bad.map fun line =>
      path.text ++ ": line " ++ toString line.number ++ ": " ++ line.fault.message)
  | .limit cause => cause

namespace ConfigFault

def cause? : ConfigFault → Option String
  | .read _ fault => some fault.message
  | .parse _ fault => fault.message?
  | .missingHomepage _ => none
  | .missingInclude _ => none
  | .glob refusal => some refusal.message
  | .gitignore path fault => some (fault.message path)

/-- Whether a text is malformed; what is said about that is not fixed. -/
def isMalformed : ConfigFault → Bool
  | .parse _ .malformed => true
  | _ => false

def message (f : ConfigFault) : String :=
  let cause := f.cause?.getD "malformed text"
  match f with
  | .read path _ => "Failed to read " ++ path.text ++ ": " ++ cause
  | .parse path _ => "Failed to parse " ++ path.text ++ ": " ++ cause
  | .missingHomepage path => "No `homepage` in " ++ path.text
  | .missingInclude path => "No `include` patterns in " ++ path.text
  | .glob _ => "Failed to build glob pattern: " ++ cause
  | .gitignore _ _ => "Failed to parse gitignore: " ++ cause

end ConfigFault

def FileFault.message : FileFault → String
  | .read path fault => "Failed to read " ++ path.text ++ ": " ++ fault.message
  | .createDir path fault => "Failed to create directory " ++ path.text ++ ": " ++ fault.message
  | .write path fault => "Failed to write " ++ path.text ++ ": " ++ fault.message

end SourcePages
