import SourcePages.Unit.Scanner
import SourcePages.Unit.Title

/-!
Markdown pages: one per source file, one fragment per exported unit. Signatures and comments are
copied as they stand; nothing is escaped.
-/

namespace SourcePages

structure Repository where
  baseUrl : String
  name : Option String := none
  deriving DecidableEq, Repr

/-- The repository with a given homepage, whose address ends before a fragment. -/
def Repository.ofHomepage (homepage : String) (name : Option String) : Repository :=
  ⟨String.ofList (homepage.toList.takeWhile (· ≠ '#')), name⟩

def sourceLink (baseUrl path : String) (u : ExportedUnit) : String :=
  "[View source](" ++ baseUrl ++ "/blob/main/" ++ path ++
    "#L" ++ toString u.span.start ++ "-L" ++ toString u.span.stop ++ ")"

/-- The fragment of a unit: a heading, the signature in a code fence, the comments, and the link.
A unit without comments leaves a blank line in their place. -/
def fragment (baseUrl path : String) (u : ExportedUnit) : String :=
  Text.joinWith "\n" [
    "## " ++ u.title,
    "```javascript\n" ++ Text.joinWith "\n" u.signature ++ "\n```",
    Text.joinWith "\n" u.docs,
    sourceLink baseUrl path u]

def page (baseUrl path : String) (units : List ExportedUnit) : String :=
  Text.joinWith "\n" (units.map (fragment baseUrl path))

def pageOfSource (repository : Repository) (path text : String) : String :=
  page repository.baseUrl path (extract text)

end SourcePages
