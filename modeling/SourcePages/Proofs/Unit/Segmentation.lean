import SourcePages.Proofs.Unit.Block
import SourcePages.Unit.Scanner

/-!
The lines of a text fall into segments in exactly one way, and the scan reads off the units of those
segments. The state of the scan after some lines is a view of the segments of these lines.
-/

namespace SourcePages

namespace Segment

theorem Complete.ne_nil {s : Segment} (h : s.Complete) : s.lines ≠ [] := by
  cases s with
  | skipped line => exact List.cons_ne_nil _ _
  | block b => exact h.1.ne_nil

theorem Complete.eq_of_append_eq {a b : Segment} (ha : a.Complete) (hb : b.Complete)
    {r s : List String} (same : a.lines ++ r = b.lines ++ s) : a = b ∧ r = s := by
  cases a with
  | skipped line =>
    cases b with
    | skipped other =>
      obtain ⟨rfl, rest⟩ := List.cons.inj same
      exact ⟨rfl, rest⟩
    | block b =>
      obtain ⟨first, rest, lines, opens⟩ := hb.1
      simp only [Segment.lines, lines] at same
      obtain ⟨rfl, -⟩ := List.cons.inj same
      exact absurd opens (ha b.content)
  | block a =>
    cases b with
    | skipped other =>
      obtain ⟨first, rest, lines, opens⟩ := ha.1
      simp only [Segment.lines, lines] at same
      obtain ⟨rfl, -⟩ := List.cons.inj same
      exact absurd opens (hb a.content)
    | block b =>
      obtain ⟨rfl, rest⟩ := Block.Closed.eq_of_append_eq ha hb same
      exact ⟨rfl, rest⟩

theorem Complete.ne_unclosed {s : Segment} (hs : s.Complete) {b : Block} (hb : b.Unclosed)
    (r : List String) : b.lines ≠ s.lines ++ r := by
  cases s with
  | skipped line =>
    intro same
    obtain ⟨first, rest, lines, opens⟩ := hb.1
    rw [lines] at same
    obtain ⟨rfl, -⟩ := List.cons.inj same
    exact hs b.content opens
  | block closed => exact hb.ne_append hs r

end Segment

namespace Segmentation

def tailLines (unclosed : Option Block) : List String := (unclosed.map Block.lines).getD []

theorem Proper.tail {segment : Segment} {segments : List Segment} {unclosed : Option Block}
    (h : Proper ⟨segment :: segments, unclosed⟩) : Proper ⟨segments, unclosed⟩ :=
  ⟨fun other member => h.1 other (List.mem_cons_of_mem _ member), h.2⟩

theorem Proper.head {segment : Segment} {segments : List Segment} {unclosed : Option Block}
    (h : Proper ⟨segment :: segments, unclosed⟩) : segment.Complete :=
  h.1 segment List.mem_cons_self

theorem tailLines_ne_append {segment : Segment} (complete : segment.Complete)
    {unclosed : Option Block} (hanging : ∀ b ∈ unclosed, b.Unclosed) (r : List String) :
    tailLines unclosed ≠ segment.lines ++ r := by
  cases unclosed with
  | none =>
    intro same
    exact complete.ne_nil (List.append_eq_nil_iff.mp same.symm).1
  | some b => exact complete.ne_unclosed (hanging b rfl) r

theorem tailLines_inj {x y : Option Block} (hx : ∀ b ∈ x, b.Unclosed) (hy : ∀ b ∈ y, b.Unclosed)
    (same : tailLines x = tailLines y) : x = y := by
  cases x with
  | none =>
    cases y with
    | none => rfl
    | some b => exact absurd same.symm (hy b rfl).1.ne_nil
  | some a =>
    cases y with
    | none => exact absurd same (hx a rfl).1.ne_nil
    | some b => rw [Block.eq_of_lines_eq (hx a rfl).1 (hy b rfl).1 same]

/-- Lines fall into segments in one way at most. -/
theorem Proper.unique {s r : Segmentation} (hs : s.Proper) (hr : r.Proper)
    (same : s.lines = r.lines) : s = r := by
  obtain ⟨segments, unclosed⟩ := s
  obtain ⟨others, rest⟩ := r
  -- Segment by segment from the front, where only one complete segment can stand.
  induction segments generalizing others with
  | nil =>
    cases others with
    | nil =>
      have rests : unclosed = rest := tailLines_inj hs.2 hr.2 same
      rw [rests]
    | cons other others =>
      simp only [lines, List.flatMap_cons, List.append_assoc] at same
      exact absurd same (tailLines_ne_append hr.head hs.2 _)
  | cons segment segments ih =>
    cases others with
    | nil =>
      simp only [lines, List.flatMap_cons, List.append_assoc] at same
      exact absurd same.symm (tailLines_ne_append hs.head hr.2 _)
    | cons other others =>
      simp only [lines, List.flatMap_cons, List.append_assoc] at same
      obtain ⟨rfl, further⟩ := hs.head.eq_of_append_eq hr.head same
      have later := ih hs.tail others hr.tail further
      simp only [Segmentation.mk.injEq] at later
      rw [later.1, later.2]

def place (segments : List Segment) (b : Block) : Segmentation :=
  if b.ends then ⟨segments ++ [.block b], none⟩ else ⟨segments, some b⟩

def add (s : Segmentation) (line : String) : Segmentation :=
  match s.unclosed with
  | some b => place s.segments (b.add line)
  | none =>
    match Content.opened? line with
    | some content => place s.segments (.start content line)
    | none => ⟨s.segments ++ [.skipped line], none⟩

theorem lines_place (segments : List Segment) (b : Block) :
    (place segments b).lines = segments.flatMap Segment.lines ++ b.lines := by
  unfold place
  split <;> simp [lines, Segment.lines]

theorem lines_add (s : Segmentation) (line : String) : (s.add line).lines = s.lines ++ [line] := by
  obtain ⟨segments, _ | b⟩ := s
  · simp only [add]
    split
    · rw [lines_place]
      simp [lines, Block.start]
    · simp [lines, Segment.lines]
  · simp only [add]
    rw [lines_place]
    simp [lines, Block.add]

theorem proper_place {segments : List Segment} (complete : ∀ s ∈ segments, s.Complete) {b : Block}
    (closed : b.ends = true → b.Closed) (unclosed : b.ends = false → b.Unclosed) :
    (place segments b).Proper := by
  cases ends : b.ends with
  | true =>
    simp only [place, ends, if_true]
    refine ⟨fun s member => ?_, by simp⟩
    rcases List.mem_append.mp member with member | member
    · exact complete s member
    · rw [List.mem_singleton.mp member]
      exact closed ends
  | false =>
    simp only [place, ends, Bool.false_eq_true, if_false]
    refine ⟨complete, fun other member => ?_⟩
    cases member
    exact unclosed ends

theorem Proper.add {s : Segmentation} (h : s.Proper) (line : String) : (s.add line).Proper := by
  obtain ⟨segments, _ | b⟩ := s
  · simp only [Segmentation.add]
    split
    · rename_i content opened
      have opens := Content.opens_of_opened opened
      exact proper_place h.1 (Block.closed_start opens) (Block.unclosed_start opens)
    · rename_i skipped
      refine ⟨fun s member => ?_, by simp⟩
      rcases List.mem_append.mp member with member | member
      · exact h.1 s member
      · rw [List.mem_singleton.mp member]
        exact Content.not_opens_of_not_opened skipped
  · have hanging := h.2 b rfl
    have ends := Block.ends_add hanging.1 line
    exact proper_place h.1 (fun closes => hanging.close (ends ▸ closes))
      (fun goes => hanging.add (ends ▸ goes))

def waiting (comments : List String) : List Segment → List String
  | [] => comments
  | .skipped _ :: rest => waiting comments rest
  | .block ⟨.comment, lines⟩ :: rest => waiting (comments ++ lines) rest
  | .block ⟨.declaration _, _⟩ :: rest => waiting [] rest

theorem waiting_append (a b : List Segment) (comments : List String) :
    waiting comments (a ++ b) = waiting (waiting comments a) b := by
  induction a generalizing comments with
  | nil => rfl
  | cons segment rest ih =>
    rcases segment with line | ⟨_ | kind, lines⟩ <;> exact ih _

theorem unitsFrom_append (a b : List Segment) (number : Nat) (comments : List String) :
    unitsFrom number comments (a ++ b) = unitsFrom number comments a ++
      unitsFrom (number + (a.flatMap Segment.lines).length) (waiting comments a) b := by
  induction a generalizing number comments with
  | nil => rfl
  | cons segment rest ih =>
    rcases segment with line | ⟨_ | kind, lines⟩ <;>
      simp [unitsFrom, waiting, ih, Segment.lines, Nat.add_assoc, Nat.add_comm]

def commentLines : Option Block → List String
  | some ⟨.comment, lines⟩ => lines
  | _ => []

def modeIn (start : Nat) : Option Block → Mode
  | none => .idle
  | some ⟨.comment, _⟩ => .inDoc
  | some ⟨.declaration .type, lines⟩ => .inType start lines
  | some ⟨.declaration .function, lines⟩ => .inFunction start lines

def scanner (s : Segmentation) : Scanner where
  mode := modeIn (s.segments.flatMap Segment.lines).length s.unclosed
  pending := waiting [] s.segments ++ commentLines s.unclosed
  units := s.units

theorem scanner_skip (segments : List Segment) (line : String) :
    scanner ⟨segments ++ [.skipped line], none⟩ = scanner ⟨segments, none⟩ := by
  simp [scanner, units, modeIn, commentLines, waiting_append, unitsFrom_append, waiting, unitsFrom]

theorem scanner_place_comment (segments : List Segment) (lines : List String) :
    (place segments ⟨.comment, lines⟩).scanner =
      ⟨if Block.ends ⟨.comment, lines⟩ then .idle else .inDoc, waiting [] segments ++ lines,
        unitsFrom 0 [] segments⟩ := by
  unfold place
  split <;>
    simp [scanner, units, modeIn, commentLines, waiting_append, unitsFrom_append, waiting,
      unitsFrom]

theorem scanner_place_closed (segments : List Segment) (kind : Kind) (lines : List String)
    (ends : Block.ends ⟨.declaration kind, lines⟩ = true) :
    (place segments ⟨.declaration kind, lines⟩).scanner =
      ⟨.idle, [], unitsFrom 0 [] segments ++ [⟨kind, lines, waiting [] segments,
        ⟨(segments.flatMap Segment.lines).length,
          (segments.flatMap Segment.lines).length + lines.length - 1⟩⟩]⟩ := by
  simp [place, ends, scanner, units, modeIn, commentLines, waiting_append, unitsFrom_append,
    waiting, unitsFrom]

theorem scanner_place_unclosed (segments : List Segment) (kind : Kind) (lines : List String)
    (goes : Block.ends ⟨.declaration kind, lines⟩ = false) :
    (place segments ⟨.declaration kind, lines⟩).scanner =
      ⟨modeIn (segments.flatMap Segment.lines).length (some ⟨.declaration kind, lines⟩),
        waiting [] segments, unitsFrom 0 [] segments⟩ := by
  simp [place, goes, scanner, units, commentLines]

theorem feedHeader_scanner (segments : List Segment) (before : List String) (line : String)
    (mode : Mode) (ends : Block.ends ⟨.declaration .function, before ++ [line]⟩ = opensBody line) :
    Scanner.feedHeader ⟨mode, waiting [] segments, unitsFrom 0 [] segments⟩
        (segments.flatMap Segment.lines).length before
        ((segments.flatMap Segment.lines).length + before.length) line =
      (place segments ⟨.declaration .function, before ++ [line]⟩).scanner := by
  unfold Scanner.feedHeader
  cases closes : opensBody line with
  | true =>
    rw [scanner_place_closed _ _ _ (ends.trans closes)]
    simp [Scanner.close]
  | false =>
    rw [scanner_place_unclosed _ _ _ (ends.trans closes)]
    simp [modeIn]

theorem feedIdle_scanner (segments : List Segment) (line : String) :
    (scanner ⟨segments, none⟩).feedIdle (segments.flatMap Segment.lines).length line =
      (add ⟨segments, none⟩ line).scanner := by
  have idle : scanner ⟨segments, none⟩ =
      ⟨.idle, waiting [] segments, unitsFrom 0 [] segments⟩ := by
    simp [scanner, units, modeIn, commentLines]
  simp only [add, Content.opened?, Scanner.feedIdle]
  by_cases doc : opensDoc line
  · simp only [doc, if_true]
    rw [Block.start, scanner_place_comment, idle]
    rfl
  · by_cases type : opensType line
    · have goes : Block.ends ⟨.declaration .type, [line]⟩ = false := by
        have filled : line ≠ "" := by
          rintro rfl
          exact Content.not_opens_empty (.declaration .type) type
        simpa [Block.ends, Content.searched, Content.closes] using filled
      simp only [doc, type, if_true, if_false, Bool.false_eq_true]
      rw [Block.start, scanner_place_unclosed _ _ _ goes, idle]
      rfl
    · by_cases function : opensFunction line
      · simp only [doc, type, function, if_true, if_false, Bool.false_eq_true]
        rw [idle]
        exact feedHeader_scanner segments [] line .idle rfl
      · simp only [doc, type, function, if_false, Bool.false_eq_true]
        rw [scanner_skip]

theorem feed_scanner {s : Segmentation} (h : s.Proper) (line : String) :
    s.scanner.feed s.lines.length line = (s.add line).scanner := by
  obtain ⟨segments, _ | ⟨content, before⟩⟩ := s
  · have number : (lines ⟨segments, none⟩).length = (segments.flatMap Segment.lines).length := by
      simp [lines]
    rw [number]
    exact feedIdle_scanner segments line
  · have number : (lines ⟨segments, some ⟨content, before⟩⟩).length =
        (segments.flatMap Segment.lines).length + before.length := by
      simp [lines]
    have ends := Block.ends_add (h.2 _ rfl).1 line
    rw [number]
    rcases content with _ | ⟨_ | _⟩
    · simp only [add, Block.add] at ends ⊢
      rw [scanner_place_comment, ends]
      simp only [Scanner.feed, scanner, modeIn, commentLines, units, List.append_assoc]
      rfl
    · simp only [add, Block.add] at ends ⊢
      by_cases closes : line = ""
      · rw [scanner_place_closed _ _ _ (ends.trans (decide_eq_true closes))]
        simp [Scanner.feed, scanner, modeIn, commentLines, units, closes, Scanner.close]
      · rw [scanner_place_unclosed _ _ _ (ends.trans (decide_eq_false closes))]
        simp [Scanner.feed, scanner, modeIn, commentLines, units, closes]
    · simp only [add, Block.add] at ends ⊢
      have header := feedHeader_scanner segments before line
        (.inFunction (segments.flatMap Segment.lines).length before) ends
      simpa [Scanner.feed, scanner, modeIn, commentLines, units] using header

theorem feedLines_scanner (more : List String) {s : Segmentation} (h : s.Proper) :
    (more.foldl add s).Proper ∧ (more.foldl add s).lines = s.lines ++ more ∧
      s.scanner.feedLines s.lines.length more = (more.foldl add s).scanner := by
  -- The invariant is that the scanner is that of a proper segmentation of the lines so far.
  induction more generalizing s with
  | nil => exact ⟨h, by simp, rfl⟩
  | cons line rest ih =>
    obtain ⟨proper, lines, run⟩ := ih (h.add line)
    refine ⟨proper, by simp [lines, lines_add], ?_⟩
    rw [lines_add, List.length_append] at run
    rw [Scanner.feedLines, feed_scanner h, List.foldl_cons]
    exact run

def ofLines (lines : List String) : Segmentation := lines.foldl add ⟨[], none⟩

theorem ofLines_spec (lines : List String) :
    (ofLines lines).Proper ∧ (ofLines lines).lines = lines ∧
      (Scanner.feedLines {} 0 lines).units = (ofLines lines).units := by
  have empty : Proper ⟨[], none⟩ := ⟨by simp, by simp⟩
  obtain ⟨proper, all, run⟩ := feedLines_scanner lines empty
  refine ⟨proper, all, ?_⟩
  have units := congrArg Scanner.units run
  exact units

end Segmentation

/-- The lines of a text fall into segments in exactly one way, and the units of the text are those
of its segments. -/
theorem extract_segments (text : String) :
    ∃ s : Segmentation, (s.Proper ∧ s.lines = Text.lines text) ∧
      (∀ r : Segmentation, r.Proper ∧ r.lines = Text.lines text → r = s) ∧
      extract text = s.units := by
  obtain ⟨proper, lines, units⟩ := Segmentation.ofLines_spec (Text.lines text)
  refine ⟨.ofLines (Text.lines text), ⟨proper, lines⟩, fun r h => ?_, units⟩
  exact h.1.unique proper (h.2.trans lines.symm)

end SourcePages
