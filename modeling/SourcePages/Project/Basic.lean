import SourcePages.Filter.Ignore
import SourcePages.Filter.Include
import SourcePages.Project.Config
import SourcePages.Project.Manifest

namespace SourcePages

structure Project where
  config : Config
  repository : Repository
  selectors : List Selector
  filter : IgnoreFilter

def loadGitignore [Glob.Engine] (t : FileTree) (c : Config) : Except ConfigFault (Option Gitignore) :=
  let path := c.root.join ⟨".gitignore"⟩
  if c.respectGitignore && t.has path then
    match t.read path with
    | .error _ => .error (.gitignore path (.lines [⟨1, .isDirectory⟩]))
    | .ok bytes =>
      match Gitignore.read c.root bytes with
      | .ok g => .ok (some g)
      | .error fault => .error (.gitignore path fault)
  else .ok none

def IgnoreFilter.load [Glob.Engine] (t : FileTree) (c : Config) :
    Except ConfigFault IgnoreFilter := do
  let gitignore ← loadGitignore t c
  let patterns ← (readIgnores c.ignores).mapError .glob
  let dependencies ← (readIgnores (if c.skipDeps then dependencyPatterns else [])).mapError .glob
  return ⟨gitignore, patterns, dependencies⟩

namespace Project

def loadWith [Glob.Engine] (t : FileTree) (c : Config) (repository : Repository)
    (patterns : List String) : Except ConfigFault Project := do
  let selectors ← (readSelectors patterns).mapError .glob
  let filter ← IgnoreFilter.load t c
  return ⟨c, repository, selectors, filter⟩

/-- The patterns of a project: those of the settings, or else those of the project file, which must
not be empty. -/
def patternsOf (t : FileTree) (c : Config) : Except ConfigFault (List String) :=
  match c.includes? with
  | some patterns => .ok patterns
  | none => do
    let path := c.resolve c.projectFile
    let patterns ← readIncludes t path
    if patterns.isEmpty then throw (.missingInclude path)
    return patterns

def load [Glob.Engine] (t : FileTree) (c : Config) : Except ConfigFault Project := do
  let path := c.resolve c.packageFile
  let package ← readPackage t path
  let repository ← package.repository path
  loadWith t c repository (← patternsOf t c)

def patterns (p : Project) : List String := p.selectors.map (·.text)

end Project

end SourcePages
