import SourcePages.Path.Extension

namespace SourcePages

/-- The settings of a run. Paths other than the root are taken from the root unless they are
absolute. -/
structure Config where
  root : Path := ⟨"."⟩
  projectFile : Path := ⟨"tsconfig.json"⟩
  packageFile : Path := ⟨"package.json"⟩
  outputDir : Path := ⟨"docs"⟩
  includes? : Option (List String) := none
  ignores : List String := []
  skipDeps : Bool := false
  respectGitignore : Bool := false
  /-- How many files are documented at a time; zero leaves it open. -/
  threads : Nat := 0
  dryRun : Bool := false
  deriving DecidableEq, Repr

namespace Config

def resolve (c : Config) (p : Path) : Path :=
  if p.isAbsolute then p else c.root.join p

def outputRoot (c : Config) : Path := c.resolve c.outputDir

end Config

end SourcePages
