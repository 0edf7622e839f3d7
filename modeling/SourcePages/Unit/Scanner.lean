import SourcePages.Text.Split
import SourcePages.Unit.Basic

/-!
Reading the exported units of a source text, line by line and without parsing the language. A
declaration begins at the first column. A comment belongs to the declaration that closes next,
and one that is never closed takes in the rest of the text.
-/

namespace SourcePages

def opensDoc (line : String) : Bool :=
  "/**".toList.isPrefixOf line.toList

def closesDoc (line : String) : Bool :=
  "*/".toList.isSuffixOf line.toList

def opensType (line : String) : Bool :=
  "export type".toList.isPrefixOf line.toList

def opensFunction (line : String) : Bool :=
  "export function".toList.isPrefixOf line.toList

def opensBody (line : String) : Bool :=
  line.toList.getLast? == some '\x7b'

/-- The block that the scanner is in; an open declaration keeps its first line's number and its
lines so far. -/
inductive Mode where
  | idle
  | inDoc
  | inType (start : Nat) (lines : List String)
  | inFunction (start : Nat) (lines : List String)
  deriving DecidableEq, Repr

structure Scanner where
  mode : Mode := .idle
  pending : List String := []
  units : List ExportedUnit := []
  deriving DecidableEq, Repr

namespace Scanner

def close (s : Scanner) (kind : Kind) (signature : List String) (span : Span) : Scanner :=
  ⟨.idle, [], s.units ++ [⟨kind, signature, s.pending, span⟩]⟩

def feedHeader (s : Scanner) (start : Nat) (before : List String) (number : Nat)
    (line : String) : Scanner :=
  if opensBody line then s.close .function (before ++ [line]) ⟨start, number⟩
  else { s with mode := .inFunction start (before ++ [line]) }

/-- Takes in a line outside all blocks. A comment's first line is not searched for its end. -/
def feedIdle (s : Scanner) (number : Nat) (line : String) : Scanner :=
  if opensDoc line then { s with mode := .inDoc, pending := s.pending ++ [line] }
  else if opensType line then { s with mode := .inType number [line] }
  else if opensFunction line then s.feedHeader number [] number line
  else s

def feed (s : Scanner) (number : Nat) (line : String) : Scanner :=
  match s.mode with
  | .idle => s.feedIdle number line
  | .inDoc =>
    { s with
      mode := if closesDoc line then .idle else .inDoc
      pending := s.pending ++ [line] }
  | .inType start before =>
    if line = "" then s.close .type (before ++ [line]) ⟨start, number⟩
    else { s with mode := .inType start (before ++ [line]) }
  | .inFunction start before => s.feedHeader start before number line

def feedLines (s : Scanner) (number : Nat) : List String → Scanner
  | [] => s
  | line :: rest => (s.feed number line).feedLines (number + 1) rest

theorem feedLines_append (a b : List String) (s : Scanner) (number : Nat) :
    s.feedLines number (a ++ b) = (s.feedLines number a).feedLines (number + a.length) b := by
  induction a generalizing s number with
  | nil => rfl
  | cons line rest ih =>
    simp only [List.cons_append, feedLines, ih, List.length_cons]
    rw [Nat.add_right_comm, Nat.add_assoc]

end Scanner

/-- The exported units of a text, in the order of their last lines. A declaration that is still
open at the end is none. -/
def extract (text : String) : List ExportedUnit :=
  (Scanner.feedLines {} 0 (Text.lines text)).units

end SourcePages
