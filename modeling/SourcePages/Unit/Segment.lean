import SourcePages.Unit.Scanner

/-!
How the lines of a text fall into segments, said without a scan: single lines that are skipped,
blocks that are closed, and at the end perhaps a block that is not. The units of a text can be read
off its segments.
-/

namespace SourcePages

inductive Content where
  | comment
  | declaration (kind : Kind)
  deriving DecidableEq, Repr

namespace Content

def opener : Content → List Char
  | .comment => "/**".toList
  | .declaration .type => "export type".toList
  | .declaration .function => "export function".toList

def opens (content : Content) (line : String) : Bool :=
  content.opener.isPrefixOf line.toList

def closes : Content → String → Bool
  | .comment => closesDoc
  | .declaration .type => fun line => line = ""
  | .declaration .function => opensBody

/-- The lines of a block among which the closing one is looked for. The first line of a comment is
not among them. -/
def searched : Content → List String → List String
  | .comment, lines => lines.tail
  | .declaration _, lines => lines

theorem content_eq_of_openers {a b : Content} (h : a.opener <+: b.opener) : a = b := by
  revert h
  rcases a with _ | ⟨_ | _⟩ <;> rcases b with _ | ⟨_ | _⟩ <;> decide

theorem opens_unique {a b : Content} {line : String} (ha : a.opens line) (hb : b.opens line) :
    a = b := by
  rw [opens, List.isPrefixOf_iff_prefix] at ha hb
  rcases List.prefix_or_prefix_of_prefix ha hb with h | h
  · exact content_eq_of_openers h
  · exact (content_eq_of_openers h).symm

end Content

structure Block where
  content : Content
  lines : List String
  deriving DecidableEq, Repr

namespace Block

def Begins (b : Block) : Prop :=
  ∃ first rest, b.lines = first :: rest ∧ b.content.opens first

/-- A closed block: of the lines that are searched, the last one and no other closes it. -/
def Closed (b : Block) : Prop :=
  b.Begins ∧ ∃ before last, b.content.searched b.lines = before ++ [last] ∧
    b.content.closes last ∧ ∀ line ∈ before, ¬ b.content.closes line

def Unclosed (b : Block) : Prop :=
  b.Begins ∧ ∀ line ∈ b.content.searched b.lines, ¬ b.content.closes line

end Block

inductive Segment where
  | skipped (line : String)
  | block (b : Block)
  deriving DecidableEq, Repr

namespace Segment

def lines : Segment → List String
  | .skipped line => [line]
  | .block b => b.lines

def Complete : Segment → Prop
  | .skipped line => ∀ content : Content, ¬ content.opens line
  | .block b => b.Closed

end Segment

structure Segmentation where
  segments : List Segment
  unclosed : Option Block
  deriving DecidableEq, Repr

namespace Segmentation

def lines (s : Segmentation) : List String :=
  s.segments.flatMap Segment.lines ++ (s.unclosed.map Block.lines).getD []

/-- All segments are complete, and only the last block may not be closed. -/
def Proper (s : Segmentation) : Prop :=
  (∀ segment ∈ s.segments, segment.Complete) ∧ ∀ b ∈ s.unclosed, b.Unclosed

/-- The units of segments, the first of which begins at some line: each declaration takes the
comments since the one before it. -/
def unitsFrom (number : Nat) (comments : List String) : List Segment → List ExportedUnit
  | [] => []
  | .skipped _ :: rest => unitsFrom (number + 1) comments rest
  | .block ⟨.comment, lines⟩ :: rest =>
    unitsFrom (number + lines.length) (comments ++ lines) rest
  | .block ⟨.declaration kind, lines⟩ :: rest =>
    ⟨kind, lines, comments, ⟨number, number + lines.length - 1⟩⟩ ::
      unitsFrom (number + lines.length) [] rest

def units (s : Segmentation) : List ExportedUnit :=
  unitsFrom 0 [] s.segments

end Segmentation

end SourcePages
