import SourcePages.Filter.Engine
import SourcePages.Glob.Member

/-!
The patterns that select source files. A segment of a path that begins with a dot is hidden: it is
selected only if a dotted segment of the same pattern matches it.
-/

namespace SourcePages

def isHidden (segment : String) : Bool :=
  segment.toList.head? == some '.' && segment ≠ "." && segment ≠ ".."

def trimHere : List Char → List Char
  | '.' :: '/' :: rest => trimHere rest
  | text => text

structure Selector where
  text : String
  pattern : Glob.Pattern
  dotted : List Glob.Pattern

namespace Selector

/-- Reads a selector. Its dotted segments must be patterns too, that are matched on their own. -/
def read [Glob.Engine] (text : String) : Except Glob.Refusal Selector := do
  let text := String.ofList (trimHere text.toList)
  let pattern ← Glob.read true text
  let dotted ← ((Text.segments text).filter isHidden).mapM Glob.readAlone
  return ⟨text, pattern, dotted⟩

def takes (s : Selector) (path : String) : Bool :=
  s.pattern.accepts path &&
    ((Text.segments path).filter isHidden).all fun segment =>
      s.dotted.any (·.matches segment)

end Selector

def readSelectors [Glob.Engine] (texts : List String) : Except Glob.Refusal (List Selector) := do
  let selectors ← texts.mapM Selector.read
  Glob.together (selectors.map (·.pattern))
  return selectors

def anyTakes (selectors : List Selector) (path : String) : Bool :=
  selectors.any (·.takes path)

end SourcePages
