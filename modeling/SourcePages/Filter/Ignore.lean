import SourcePages.Filter.Gitignore

namespace SourcePages

structure IgnoreFilter where
  gitignore : Option Gitignore
  patterns : List Glob.Pattern
  dependencies : List Glob.Pattern

namespace IgnoreFilter

def ignores (f : IgnoreFilter) (path : String) (isDirectory : Bool) : Bool :=
  f.dependencies.any (·.accepts path) ||
    f.patterns.any (·.accepts path) ||
    (f.gitignore.map (·.ignores path isDirectory)).getD false

end IgnoreFilter

def readIgnores [Glob.Engine] (texts : List String) : Except Glob.Refusal (List Glob.Pattern) := do
  let patterns ← texts.mapM (Glob.read false)
  Glob.together patterns
  return patterns

end SourcePages
