import SourcePages.Unit.Scanner

/-!
Texts that are put one behind another. What is read off the first text stays; if no block is open at
its end, what is read off the second one is what would be read off it alone, but for the numbers of
its lines and for the comments that wait at the end of the first.
-/

namespace SourcePages

def Span.down (lines : Nat) (s : Span) : Span := ⟨s.start + lines, s.stop + lines⟩

def ExportedUnit.down (lines : Nat) (u : ExportedUnit) : ExportedUnit :=
  { u with span := u.span.down lines }

def withDocs (docs : List String) : List ExportedUnit → List ExportedUnit
  | [] => []
  | u :: rest => { u with docs := docs ++ u.docs } :: rest

def Mode.down (lines : Nat) : Mode → Mode
  | .idle => .idle
  | .inDoc => .inDoc
  | .inType start before => .inType (start + lines) before
  | .inFunction start before => .inFunction (start + lines) before

namespace Scanner

section

variable (s : Scanner) (number : Nat) (line : String)

theorem units_feedHeader (start : Nat) (before : List String) :
    s.units <+: (s.feedHeader start before number line).units := by
  unfold feedHeader
  split
  · exact List.prefix_append _ _
  · exact List.prefix_rfl

theorem units_feedIdle : s.units <+: (s.feedIdle number line).units := by
  unfold feedIdle
  split
  · exact List.prefix_rfl
  · split
    · exact List.prefix_rfl
    · split
      · exact s.units_feedHeader _ _ _ _
      · exact List.prefix_rfl

theorem units_feed : s.units <+: (s.feed number line).units := by
  unfold feed
  split
  · exact s.units_feedIdle _ _
  · exact List.prefix_rfl
  · split
    · exact List.prefix_append _ _
    · exact List.prefix_rfl
  · exact s.units_feedHeader _ _ _ _

end

theorem units_feedLines (lines : List String) (s : Scanner) (number : Nat) :
    s.units <+: (s.feedLines number lines).units := by
  induction lines generalizing s number with
  | nil => exact List.prefix_rfl
  | cons line rest ih => exact (s.units_feed number line).trans (ih _ _)

/-- A scan as it goes behind another text: its lines are further down, and up to its first unit there
are the comments that waited before it. -/
def behind (lines : Nat) (docs : List String) (units : List ExportedUnit) (s : Scanner) :
    Scanner where
  mode := s.mode.down lines
  pending := if s.units = [] then docs ++ s.pending else s.pending
  units := units ++ withDocs docs (s.units.map (.down lines))

section

variable {lines : Nat} {docs : List String} {units : List ExportedUnit}

theorem close_behind (s : Scanner) (kind : Kind) (signature : List String) (span : Span) :
    (s.behind lines docs units).close kind signature (span.down lines) =
      (s.close kind signature span).behind lines docs units := by
  obtain ⟨mode, pending, closed⟩ := s
  cases closed <;> simp [close, behind, withDocs, Mode.down, ExportedUnit.down]

theorem feedHeader_behind (s : Scanner) (start : Nat) (before : List String) (number : Nat)
    (line : String) :
    (s.behind lines docs units).feedHeader (start + lines) before (number + lines) line =
      (s.feedHeader start before number line).behind lines docs units := by
  unfold feedHeader
  split
  · exact s.close_behind .function (before ++ [line]) ⟨start, number⟩
  · rfl

theorem wait_behind (s : Scanner) (mode : Mode) (line : String) :
    { s.behind lines docs units with
      mode := mode.down lines
      pending := (s.behind lines docs units).pending ++ [line] } =
      behind lines docs units { s with mode := mode, pending := s.pending ++ [line] } := by
  obtain ⟨_, pending, closed⟩ := s
  cases closed <;> simp [behind]

theorem feedIdle_behind (s : Scanner) (number : Nat) (line : String) :
    (s.behind lines docs units).feedIdle (number + lines) line =
      (s.feedIdle number line).behind lines docs units := by
  unfold feedIdle
  split
  · exact s.wait_behind .inDoc line
  · split
    · rfl
    · split
      · exact s.feedHeader_behind number [] number line
      · rfl

theorem feed_behind (s : Scanner) (number : Nat) (line : String) :
    (s.behind lines docs units).feed (number + lines) line =
      (s.feed number line).behind lines docs units := by
  have down : (s.behind lines docs units).mode = s.mode.down lines := rfl
  cases mode : s.mode with
  | idle =>
    simp only [feed, down, mode, Mode.down]
    exact s.feedIdle_behind number line
  | inDoc =>
    simp only [feed, down, mode, Mode.down]
    split
    · exact s.wait_behind .idle line
    · exact s.wait_behind .inDoc line
  | inType start before =>
    simp only [feed, down, mode, Mode.down]
    split
    · exact s.close_behind .type (before ++ [line]) ⟨start, number⟩
    · rfl
  | inFunction start before =>
    simp only [feed, down, mode, Mode.down]
    exact s.feedHeader_behind start before number line

theorem feedLines_behind (more : List String) (s : Scanner) (number : Nat) :
    (s.behind lines docs units).feedLines (number + lines) more =
      (s.feedLines number more).behind lines docs units := by
  induction more generalizing s number with
  | nil => rfl
  | cons line rest ih =>
    rw [feedLines, feed_behind, Nat.add_right_comm, ih]
    rfl

end

theorem feedLines_of_idle {s : Scanner} (idle : s.mode = .idle) (lines : Nat) (more : List String) :
    s.feedLines lines more = (Scanner.feedLines {} 0 more).behind lines s.pending s.units := by
  -- A scan between two blocks is one that has just begun, behind what it has read.
  have begun : s = Scanner.behind lines s.pending s.units {} := by
    obtain ⟨mode, pending, closed⟩ := s
    cases idle
    simp [behind, Mode.down, withDocs]
  rw [← feedLines_behind, Nat.zero_add, ← begun]

end Scanner

/-- What is read off a text begins what is read off it and a text behind it. If no block is open at
its end, the units of the text behind it follow, and the first of them takes the comments that wait
there. -/
theorem extract_continued (a b : String) :
    extract a <+: extract (a ++ "\n" ++ b) ∧
      ((Scanner.feedLines {} 0 (Text.lines a)).mode = .idle →
        extract (a ++ "\n" ++ b) = extract a ++
          withDocs (Scanner.feedLines {} 0 (Text.lines a)).pending
            ((extract b).map (.down (Text.lines a).length))) := by
  have parts : extract (a ++ "\n" ++ b) = ((Scanner.feedLines {} 0 (Text.lines a)).feedLines
      (0 + (Text.lines a).length) (Text.lines b)).units := by
    rw [extract, Text.lines_append, Scanner.feedLines_append]
  refine ⟨?_, fun idle => ?_⟩
  · rw [parts]
    exact Scanner.units_feedLines _ _ _
  · rw [parts, Nat.zero_add, Scanner.feedLines_of_idle idle]
    rfl

theorem extract_continued_documented :
    (Scanner.feedLines {} 0 (Text.lines "export type A = 1;\n\n/**\n * B.\n */")).mode = .idle ∧
      extract ("export type A = 1;\n\n/**\n * B.\n */" ++ "\n" ++
          "/**\n */\nexport type B = 2;\n\nexport function f() \x7b") =
        extract "export type A = 1;\n\n/**\n * B.\n */" ++
          withDocs ["/**", " * B.", " */"]
            ((extract "/**\n */\nexport type B = 2;\n\nexport function f() \x7b").map (.down 5)) := by
  have idle : (Scanner.feedLines {} 0
      (Text.lines "export type A = 1;\n\n/**\n * B.\n */")).mode = .idle := by decide +kernel
  have docs : (Scanner.feedLines {} 0
      (Text.lines "export type A = 1;\n\n/**\n * B.\n */")).pending = ["/**", " * B.", " */"] := by
    decide +kernel
  have lines : (Text.lines "export type A = 1;\n\n/**\n * B.\n */").length = 5 := by decide +kernel
  have units := (extract_continued "export type A = 1;\n\n/**\n * B.\n */"
    "/**\n */\nexport type B = 2;\n\nexport function f() \x7b").2 idle
  rw [docs, lines] at units
  exact ⟨idle, units⟩

end SourcePages
