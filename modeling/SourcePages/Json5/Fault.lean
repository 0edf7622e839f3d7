import SourcePages.Json.Mismatch

namespace SourcePages.Json5

inductive Fault where
  | malformed
  | badHex
  | badInteger
  | badNumber
  | tooLarge
  | trailAlone
  | trailWanted
  | trailMissing
  | noPatterns
  | mismatch (m : Json.Mismatch)
  deriving DecidableEq, Repr

/-- Doubles are always written out in digits; a tie between two shortest decimals goes up. -/
def numberStyle : NumberStyle where
  tie := .up
  positional _ := true
  plus := []

def Fault.message? : Fault → Option String
  | .malformed => none
  | .badHex => some "error parsing hex"
  | .badInteger => some "error parsing integer"
  | .badNumber => some "error parsing number"
  | .tooLarge => some "error parsing number: too large"
  | .trailAlone => some "unexpected unicode trail surrogate"
  | .trailWanted => some "expecting unicode trail surrogate"
  | .trailMissing => some "missing unicode trail surrogate"
  | .noPatterns => some "data did not match any variant of untagged enum Patterns"
  | .mismatch m => some (m.message ⟨"unit value", numberStyle⟩)

end SourcePages.Json5
