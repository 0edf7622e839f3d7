import Mathlib.Data.List.Induction
import SourcePages.FileTree.Operations
import SourcePages.Proofs.Text.Split

namespace SourcePages

namespace Path

theorem dropEndWhile_concat {α : Type} (test : α → Bool) (items : List α) (a : α) :
    dropEndWhile test (items ++ [a]) = if test a then dropEndWhile test items else items ++ [a] := by
  by_cases h : test a <;> simp [dropEndWhile, h]

theorem dropEndWhile_cases {α : Type} (test : α → Bool) (items : List α) :
    ∃ dropped, items = dropEndWhile test items ++ dropped ∧ (∀ a ∈ dropped, test a) ∧
      (dropEndWhile test items = [] ∨
        ∃ before a, dropEndWhile test items = before ++ [a] ∧ test a = false) := by
  induction items using List.reverseRecOn with
  | nil => exact ⟨[], rfl, by simp, .inl rfl⟩
  | append_singleton items a ih =>
    rw [dropEndWhile_concat]
    cases h : test a with
    | true =>
      obtain ⟨dropped, parts, idle, ends⟩ := ih
      refine ⟨dropped ++ [a], ?_, ?_, ends⟩
      · rw [if_pos rfl, ← List.append_assoc, ← parts]
      · intro b member
        rcases List.mem_append.mp member with member | member
        · exact idle b member
        · rw [List.mem_singleton.mp member, h]
    | false => exact ⟨[], by simp, by simp, .inr ⟨items, a, by simp, h⟩⟩

theorem ofList_eq_iff {segment : List Char} {s : String} :
    String.ofList segment = s ↔ segment = s.toList := by
  constructor
  · rintro rfl
    exact String.toList_ofList.symm
  · rintro rfl
    exact String.ofList_toList

theorem isIdle_iff {segment : List Char} : isIdle segment = true ↔ segment = [] ∨ segment = ['.'] := by
  simp [isIdle]

theorem anchor_cases (p : Path) :
    (∃ rest, p.text.toList = '/' :: rest ∧ p.anchor = ['/']) ∨
    (p.text.toList = ['.'] ∧ p.anchor = ['.']) ∨
    (∃ rest, p.text.toList = '.' :: '/' :: rest ∧ p.anchor = ['.']) ∨
    (p.anchor = [] ∧ (p.text.toList = [] ∨
      ∃ first rest, Text.split '/' p.text.toList = first :: rest ∧ isIdle first = false)) := by
  unfold anchor
  split
  · rename_i rest text
    exact .inl ⟨rest, text, rfl⟩
  · rename_i text
    exact .inr (.inl ⟨text, rfl⟩)
  · rename_i rest text
    exact .inr (.inr (.inl ⟨rest, text, rfl⟩))
  · rename_i slash dot dotSlash
    refine .inr (.inr (.inr ⟨rfl, ?_⟩))
    cases text : p.text.toList with
    | nil => exact .inl rfl
    | cons c rest =>
      right
      have noSlash : c ≠ '/' := fun same => slash rest (by rw [text, same])
      rw [Text.split, if_neg noSlash]
      have filled := Text.split_ne_nil '/' rest
      cases pieces : Text.split '/' rest with
      | nil => exact absurd pieces filled
      | cons piece others =>
        refine ⟨c :: piece, others, rfl, ?_⟩
        apply Bool.eq_false_iff.mpr
        intro idle
        rcases isIdle_iff.mp idle with nothing | single
        · cases nothing
        · obtain ⟨rfl, rfl⟩ := List.cons.inj single
          have joined := Text.join_split '/' rest
          rw [pieces] at joined
          cases others with
          | nil =>
            simp only [Text.join] at joined
            exact dot (by rw [text, ← joined])
          | cons next more =>
            rw [Text.join_cons_cons] at joined
            exact dotSlash _ (by rw [text, ← joined]; rfl)

theorem text_eq (p : Path) : p.text.toList = p.anchor ++ Text.join ['/'] p.body := by
  have anchored : p.anchor <+: p.text.toList := by
    rcases p.anchor_cases with ⟨rest, text, anchor⟩ | ⟨text, anchor⟩ | ⟨rest, text, anchor⟩ |
      ⟨anchor, -⟩
    · rw [text, anchor]; exact ⟨rest, rfl⟩
    · simp [text, anchor]
    · rw [text, anchor]; exact ⟨'/' :: rest, rfl⟩
    · rw [anchor]
      exact List.nil_prefix
  rw [body, Text.join_split]
  exact (List.prefix_iff_eq_append.mp anchored).symm

theorem steps_eq_segments (p : Path) :
    p.steps = ((Text.split '/' p.text.toList).filter (!isIdle ·)).map String.ofList := by
  rw [steps, Text.segments, List.filter_map]
  congr 1
  apply List.filter_congr
  intro segment _
  have empty : "".toList = [] := rfl
  have dot : ".".toList = ['.'] := by decide
  simp [isIdle, ofList_eq_iff, empty, dot]

theorem steps_eq (p : Path) : p.steps = (p.body.filter (!isIdle ·)).map String.ofList := by
  rw [steps_eq_segments, body]
  congr 1
  rcases p.anchor_cases with ⟨rest, text, anchor⟩ | ⟨text, anchor⟩ | ⟨rest, text, anchor⟩ |
    ⟨anchor, -⟩
  · simp [text, anchor, Text.split, isIdle]
  · simp [text, anchor, Text.split, isIdle]
  · simp [text, anchor, Text.split, isIdle]
  · simp [anchor]

def stepComponent (name : String) : Component := if name = ".." then .parent else .normal name

theorem components_eq (p : Path) :
    p.components = p.anchorComponents ++ p.steps.map stepComponent := by
  rw [components, steps_eq, List.map_map]
  congr 1
  apply List.map_congr_left
  intro segment _
  have up : "..".toList = ['.', '.'] := by decide
  simp [segmentComponent, stepComponent, ofList_eq_iff, up]

theorem steps_ne_nil {p : Path} (filled : p.text ≠ "") (relative : p.anchor = []) :
    p.steps ≠ [] := by
  have text : p.text.toList ≠ [] := by simpa using filled
  rcases p.anchor_cases with ⟨rest, -, anchor⟩ | ⟨-, anchor⟩ | ⟨rest, -, anchor⟩ | ⟨-, named⟩
  · rw [relative] at anchor; cases anchor
  · rw [relative] at anchor; cases anchor
  · rw [relative] at anchor; cases anchor
  · obtain ⟨first, rest, pieces, names⟩ := named.resolve_left text
    rw [steps_eq_segments, pieces]
    simp [names]

theorem slash_not_mem_body {p : Path} {piece : List Char} (member : piece ∈ p.body) :
    '/' ∉ piece := Text.not_mem_of_mem_split member

theorem split_join_of_plain {pieces : List (List Char)} (plain : ∀ piece ∈ pieces, '/' ∉ piece)
    (filled : pieces ≠ []) : Text.split '/' (Text.join ['/'] pieces) = pieces := by
  rw [Text.split_join filled]
  clear filled
  induction pieces with
  | nil => rfl
  | cons piece rest ih =>
    rw [List.flatMap_cons, Text.split_of_not_mem (plain piece List.mem_cons_self),
      ih fun other member => plain other (List.mem_cons_of_mem _ member), List.singleton_append]

theorem join_concat {before : List (List Char)} (filled : before ≠ []) (last : List Char) :
    Text.join ['/'] (before ++ [last]) = Text.join ['/'] before ++ '/' :: last := by
  induction before with
  | nil => exact absurd rfl filled
  | cons piece rest ih =>
    cases rest with
    | nil => simp [Text.join]
    | cons next more =>
      have later := ih (List.cons_ne_nil _ _)
      rw [List.cons_append] at later ⊢
      rw [List.cons_append, Text.join_cons_cons, Text.join_cons_cons, later]
      simp

/-- The segments of a path are those of its body, behind at most a dot or a root. -/
theorem split_text (p : Path) :
    (Text.split '/' p.text.toList = p.body ∧ p.anchor = []) ∨
    (Text.split '/' p.text.toList = [] :: p.body ∧ p.anchor = ['/']) ∨
    (∃ more, p.body = [] :: more ∧ Text.split '/' p.text.toList = ['.'] :: more ∧
      p.anchor = ['.']) := by
  rcases p.anchor_cases with ⟨rest, text, anchor⟩ | ⟨text, anchor⟩ | ⟨rest, text, anchor⟩ |
    ⟨anchor, -⟩
  · exact .inr (.inl ⟨by simp [body, text, anchor, Text.split], anchor⟩)
  · exact .inr (.inr ⟨[], by simp [body, text, anchor, Text.split],
      by simp [text, Text.split], anchor⟩)
  · exact .inr (.inr ⟨Text.split '/' rest, by simp [body, text, anchor, Text.split],
      by simp [text, Text.split], anchor⟩)
  · exact .inl ⟨by simp [body, anchor], anchor⟩

/-- Whether a path is spelled with a name as its last segment. -/
def EndsIn (p : Path) (name : String) : Prop :=
  ∃ before, Text.split '/' p.text.toList = before ++ [name.toList]

theorem EndsIn.wantsDirectory {p : Path} {name : String} (h : p.EndsIn name)
    (named : isIdle name.toList = false) : p.wantsDirectory = false := by
  obtain ⟨before, pieces⟩ := h
  have proper : name ≠ "" ∧ name ≠ "." := by
    constructor
    · rintro rfl
      cases named
    · rintro rfl
      cases named
  simp [Path.wantsDirectory, Text.segments, pieces, proper]

theorem EndsIn.endsInDots {p : Path} {name : String} (h : p.EndsIn name)
    (named : isIdle name.toList = false) : FileTree.endsInDots p = decide (name = "..") := by
  obtain ⟨before, pieces⟩ := h
  have proper : name ≠ "" ∧ name ≠ "." := by
    constructor
    · rintro rfl
      cases named
    · rintro rfl
      cases named
  simp [FileTree.endsInDots, Text.segments, pieces, proper]

theorem body_of_relative {p : Path} (relative : p.anchor = []) :
    p.body = [[]] ∨ ∃ first rest, p.body = first :: rest ∧ isIdle first = false := by
  have whole : p.body = Text.split '/' p.text.toList := by simp [body, relative]
  rcases p.anchor_cases with ⟨rest, -, anchor⟩ | ⟨-, anchor⟩ | ⟨rest, -, anchor⟩ | ⟨-, named⟩
  · rw [relative] at anchor; cases anchor
  · rw [relative] at anchor; cases anchor
  · rw [relative] at anchor; cases anchor
  · rcases named with empty | named
    · exact .inl (by rw [whole, empty]; rfl)
    · exact .inr (whole ▸ named)

theorem anchor_of_named {q : Path} {head : List Char} {rest : List (List Char)}
    (pieces : Text.split '/' q.text.toList = head :: rest) (named : isIdle head = false) :
    q.anchor = [] ∧ q.body = head :: rest := by
  rcases q.split_text with ⟨split, relative⟩ | ⟨split, -⟩ | ⟨more, -, split, -⟩
  · exact ⟨relative, split.symm.trans pieces⟩
  · rw [pieces] at split
    obtain ⟨rfl, -⟩ := List.cons.inj split
    cases named
  · rw [pieces] at split
    obtain ⟨rfl, -⟩ := List.cons.inj split
    cases named

theorem anchor_of_dot {q : Path} {next : List Char} {more : List (List Char)}
    (text : q.text.toList = '.' :: Text.join ['/'] ([] :: next :: more)) : q.anchor = ['.'] := by
  rw [Text.join_cons_cons] at text
  simp [anchor, text]

section

variable {p : Path} {kept dropped : List (List Char)} (parts : p.body = kept ++ dropped)

include parts

theorem first_named {before : List (List Char)} {last : List Char} (ends : kept = before ++ [last])
    (named : isIdle last = false) (relative : p.anchor = []) :
    ∃ head rest, kept = head :: rest ∧ isIdle head = false := by
  rcases body_of_relative relative with single | ⟨head, rest, body, idle⟩
  · rw [single, ends] at parts
    cases before with
    | nil =>
      obtain ⟨rfl, -⟩ := List.cons.inj parts
      cases named
    | cons piece others => simp at parts
  · cases kept with
    | nil => simp at ends
    | cons head others =>
      rw [body] at parts
      obtain ⟨rfl, -⟩ := List.cons.inj parts
      exact ⟨_, others, rfl, idle⟩

theorem first_empty {before more : List (List Char)} {last : List Char}
    (ends : kept = before ++ [last]) (named : isIdle last = false) (body : p.body = [] :: more) :
    ∃ next others, kept = [] :: next :: others := by
  rw [body, ends] at parts
  cases before with
  | nil =>
    obtain ⟨rfl, -⟩ := List.cons.inj parts
    cases named
  | cons piece others =>
    obtain ⟨rfl, -⟩ := List.cons.inj parts
    cases others with
    | nil => exact ⟨last, [], ends⟩
    | cons next later => exact ⟨next, later ++ [last], ends⟩

theorem withBody_spec
    (ends : kept = [] ∨ ∃ before last, kept = before ++ [last] ∧ isIdle last = false) :
    (p.withBody kept).anchor = p.anchor ∧
      ((p.withBody kept).body = kept ∨ kept = [] ∧ (p.withBody kept).body = [[]]) := by
  have text : (p.withBody kept).text.toList = p.anchor ++ Text.join ['/'] kept := by
    simp [withBody]
  generalize p.withBody kept = q at text ⊢
  by_cases empty : kept = []
  · subst empty
    rcases p.split_text with ⟨-, anchor⟩ | ⟨-, anchor⟩ | ⟨more, -, -, anchor⟩
    all_goals
      rw [anchor] at text ⊢
      simp [Path.anchor, Path.body, text, Text.join, Text.split]
  · have plain : ∀ piece ∈ kept, '/' ∉ piece := fun piece member =>
      slash_not_mem_body (parts ▸ List.mem_append_left _ member)
    have pieces := split_join_of_plain plain empty
    obtain ⟨before, last, whole, named⟩ := ends.resolve_left empty
    rcases p.split_text with ⟨-, anchor⟩ | ⟨-, anchor⟩ | ⟨more, body, -, anchor⟩
    · -- The first segment is still the first one, so nothing becomes an anchor.
      rw [anchor, List.nil_append] at text
      rw [← text] at pieces
      obtain ⟨head, rest, first, idle⟩ := first_named parts whole named anchor
      rw [first] at pieces ⊢
      obtain ⟨relative, same⟩ := anchor_of_named pieces idle
      exact ⟨relative.trans anchor.symm, .inl same⟩
    · rw [anchor, List.singleton_append] at text
      have root : q.anchor = ['/'] := by simp [Path.anchor, text]
      exact ⟨root.trans anchor.symm, .inl (by simp [Path.body, text, root, pieces])⟩
    · rw [anchor, List.singleton_append] at text
      obtain ⟨next, others, first⟩ := first_empty parts whole named body
      have dot : q.anchor = ['.'] := by
        rw [first] at text
        exact anchor_of_dot text
      exact ⟨dot.trans anchor.symm, .inl (by simp [Path.body, text, dot, pieces])⟩

end

end Path

end SourcePages
