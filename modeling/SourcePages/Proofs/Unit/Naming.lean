import Mathlib.Data.List.Basic
import Mathlib.Data.List.TakeWhile
import SourcePages.Proofs.Page

namespace SourcePages

namespace Text

def Trimmed (text core : List Char) : Prop :=
  (∃ front back, text = front ++ core ++ back ∧ ∀ c ∈ front ++ back, isBlank c = true) ∧
    (∀ c ∈ core.head?, isBlank c = false) ∧ ∀ c ∈ core.getLast?, isBlank c = false

theorem head_dropWhile_blank (text : List Char) :
    ∀ c ∈ (text.dropWhile isBlank).head?, isBlank c = false := by
  intro c first
  have stops := List.head?_dropWhile_not isBlank text
  rw [first] at stops
  simpa using stops

theorem trimEnd_spec (text : List Char) :
    (∃ back, text = trimEnd text ++ back ∧ ∀ c ∈ back, isBlank c = true) ∧
      ∀ c ∈ (trimEnd text).getLast?, isBlank c = false := by
  have parts := (List.takeWhile_append_dropWhile (p := isBlank) (l := text.reverse)).symm
  refine ⟨⟨(text.reverse.takeWhile isBlank).reverse, ?_, fun c member => ?_⟩, fun c last => ?_⟩
  · rw [trimEnd, ← List.reverse_append, ← parts, List.reverse_reverse]
  · exact List.mem_takeWhile_imp (List.mem_reverse.mp member)
  · rw [trimEnd, List.getLast?_reverse] at last
    exact head_dropWhile_blank _ c last

theorem trimmed_trim (text : List Char) : Trimmed text (trim text) := by
  obtain ⟨⟨back, parts, blank⟩, ends⟩ := trimEnd_spec (text.dropWhile isBlank)
  refine ⟨⟨text.takeWhile isBlank, back, ?_, ?_⟩, fun c first => ?_, ends⟩
  · rw [trim, List.append_assoc, ← parts, List.takeWhile_append_dropWhile]
  · exact List.forall_mem_append.mpr ⟨fun _ => List.mem_takeWhile_imp, blank⟩
  · apply head_dropWhile_blank text
    rw [parts]
    exact List.mem_head?_append_of_mem_head? first

end Text

theorem afterKeyword_eq_some {keyword text rest : List Char} :
    afterKeyword? keyword text = some rest ↔ text = keyword ++ rest := by
  rw [afterKeyword?]
  constructor
  · intro h
    split at h
    · rename_i begins
      obtain ⟨behind, rfl⟩ := List.isPrefixOf_iff_prefix.mp begins
      rw [List.drop_left] at h
      rw [Option.some.inj h]
    · cases h
  · rintro rfl
    rw [if_pos (List.isPrefixOf_iff_prefix.mpr (List.prefix_append _ _)), List.drop_left]

theorem takeWhile_ne_eq_iff {mark : Char} {text part : List Char} :
    text.takeWhile (· ≠ mark) = part ↔
      mark ∉ part ∧ ∃ after, text = part ++ after ∧ ∀ c ∈ after.head?, c = mark := by
  constructor
  · rintro rfl
    refine ⟨fun inside => by simpa using List.mem_takeWhile_imp inside,
      text.dropWhile (· ≠ mark), List.takeWhile_append_dropWhile.symm, fun c first => ?_⟩
    have stops := List.head?_dropWhile_not (fun c => decide (c ≠ mark)) text
    rw [first] at stops
    simpa using stops
  · rintro ⟨plain, after, rfl, stops⟩
    have others : ∀ c ∈ part, decide (c ≠ mark) = true := by
      intro c member
      exact decide_eq_true fun same => plain (same ▸ member)
    rw [List.takeWhile_append_of_pos others]
    cases after with
    | nil => rw [List.takeWhile_nil, List.append_nil]
    | cons c rest =>
      rw [stops c rfl, List.takeWhile_cons_of_neg (by simp), List.append_nil]

theorem takeWhile_ne_eq_iff_of_mem {mark : Char} {text part : List Char} (found : mark ∈ text) :
    text.takeWhile (· ≠ mark) = part ↔ mark ∉ part ∧ ∃ after, text = part ++ mark :: after := by
  rw [takeWhile_ne_eq_iff]
  refine and_congr_right fun plain => ⟨?_, ?_⟩
  · rintro ⟨after, rfl, stops⟩
    cases after with
    | nil => exact absurd (by simpa using found) plain
    | cons c rest => exact ⟨rest, by rw [stops c rfl]⟩
  · rintro ⟨after, rfl⟩
    exact ⟨mark :: after, rfl, by simp⟩

/-- Whether something stands in a text behind some beginning of it, and nothing of its kind behind a
shorter one. -/
def Leftmost (stands : List Char → List Char → Prop) (before found : List Char) : Prop :=
  stands before found ∧ ∀ other more, stands other more → before.length ≤ other.length

/-- The name of a type that follows an occurrence of the keyword: it is not empty and ends before an
equals sign. -/
def TypeNamed (line before name : List Char) : Prop :=
  name ≠ [] ∧ '=' ∉ name ∧
    ∃ after, line = before ++ ("export type ".toList ++ (name ++ '=' :: after))

/-- What follows an occurrence of the keyword of a function: all up to the next line feed, if that is
not empty. -/
def FunctionNamed (line before tail : List Char) : Prop :=
  tail ≠ [] ∧ '\n' ∉ tail ∧ ∃ after,
    line = before ++ ("export function ".toList ++ (tail ++ after)) ∧ ∀ c ∈ after.head?, c = '\n'

/-- The part of a text before its first `<`, or else before its first opening parenthesis, or else
all of it. -/
def NamePart (tail part : List Char) : Prop :=
  (∃ after, '<' ∉ part ∧ tail = part ++ '<' :: after) ∨
    '<' ∉ tail ∧ ((∃ after, '(' ∉ part ∧ tail = part ++ '(' :: after) ∨
      '(' ∉ tail ∧ part = tail)

def Titled (kind : Kind) (line title : List Char) : Prop :=
  match kind with
  | .type =>
    (∃ before name core, Leftmost (TypeNamed line) before name ∧ Text.Trimmed name core ∧
      title = "type ".toList ++ core) ∨
    (∀ before name, ¬ TypeNamed line before name) ∧ title = []
  | .function =>
    (∃ before tail part, Leftmost (FunctionNamed line) before tail ∧ NamePart tail part ∧
      Text.Trimmed part title) ∨
    (∀ before tail, ¬ FunctionNamed line before tail) ∧ title = []

theorem typeNameHere_eq_some {text name : List Char} : typeNameHere? text = some name ↔
    name ≠ [] ∧ '=' ∉ name ∧ ∃ after, text = "export type ".toList ++ (name ++ '=' :: after) := by
  have cut : ∀ rest : List Char, (if (rest.takeWhile (· ≠ '=')).isEmpty ||
      (rest.takeWhile (· ≠ '=')).length = rest.length then none
      else some (rest.takeWhile (· ≠ '='))) = some name ↔
        name ≠ [] ∧ '=' ∉ name ∧ ∃ after, rest = name ++ '=' :: after := by
    intro rest
    by_cases mark : '=' ∈ rest
    · have shorter : (rest.takeWhile (· ≠ '=')).length ≠ rest.length := by
        intro same
        have whole := (List.takeWhile_prefix (· ≠ '=')).eq_of_length same
        rw [← whole] at mark
        simpa using List.mem_takeWhile_imp mark
      rw [← takeWhile_ne_eq_iff_of_mem mark]
      simp only [shorter, decide_false, Bool.or_false, List.isEmpty_iff]
      split
      · rename_i empty
        simp only [reduceCtorEq, false_iff, not_and]
        exact fun filled same => filled (same ▸ empty)
      · rename_i filled
        rw [Option.some_inj]
        exact ⟨fun same => ⟨same ▸ filled, same⟩, And.right⟩
    · have whole : rest.takeWhile (· ≠ '=') = rest :=
        takeWhile_ne_eq_iff.mpr ⟨mark, [], (List.append_nil rest).symm, nofun⟩
      simp only [whole, decide_true, Bool.or_true, if_true, reduceCtorEq, false_iff, not_and,
        not_exists]
      rintro - - after rfl
      simp at mark
  simp only [typeNameHere?, Option.bind_eq_bind, Option.bind_eq_some_iff, afterKeyword_eq_some, cut]
  constructor
  · rintro ⟨rest, rfl, filled, plain, after, rfl⟩
    exact ⟨filled, plain, after, rfl⟩
  · rintro ⟨filled, plain, after, rfl⟩
    exact ⟨_, rfl, filled, plain, after, rfl⟩

theorem functionTailHere_eq_some {text tail : List Char} : functionTailHere? text = some tail ↔
    tail ≠ [] ∧ '\n' ∉ tail ∧
      ∃ after, text = "export function ".toList ++ (tail ++ after) ∧ ∀ c ∈ after.head?, c = '\n' := by
  have cut : ∀ rest : List Char, (if (rest.takeWhile (· ≠ '\n')).isEmpty then none
      else some (rest.takeWhile (· ≠ '\n'))) = some tail ↔
        tail ≠ [] ∧ '\n' ∉ tail ∧ ∃ after, rest = tail ++ after ∧ ∀ c ∈ after.head?, c = '\n' := by
    intro rest
    simp only [← takeWhile_ne_eq_iff, List.isEmpty_iff]
    split
    · rename_i empty
      simp only [reduceCtorEq, false_iff, not_and]
      exact fun filled same => filled (same ▸ empty)
    · rename_i filled
      rw [Option.some_inj]
      exact ⟨fun same => ⟨same ▸ filled, same⟩, And.right⟩
  simp only [functionTailHere?, Option.bind_eq_bind, Option.bind_eq_some_iff, afterKeyword_eq_some,
    cut]
  constructor
  · rintro ⟨rest, rfl, filled, plain, after, rfl, ends⟩
    exact ⟨filled, plain, after, rfl, ends⟩
  · rintro ⟨filled, plain, after, rfl, ends⟩
    exact ⟨_, rfl, filled, plain, after, rfl, ends⟩

theorem leftmost_cases {read? : List Char → Option (List Char)} {line : List Char}
    {stands : List Char → List Char → Prop} (reads : ∀ before found,
      stands before found ↔ ∃ rest, line = before ++ rest ∧ read? rest = some found) :
    (∃ before found, leftmost? read? line = some found ∧ Leftmost stands before found) ∨
      leftmost? read? line = none ∧ ∀ before found, ¬ stands before found := by
  cases result : leftmost? read? line with
  | some found =>
    obtain ⟨before, rest, parts, here, first⟩ := exists_of_leftmost result
    refine .inl ⟨before, found, rfl, (reads _ _).mpr ⟨rest, parts, here⟩, fun other more there => ?_⟩
    obtain ⟨behind, cut, read⟩ := (reads other more).mp there
    exact first other behind cut (read ▸ Option.some_ne_none more)
  | none =>
    refine .inr ⟨rfl, fun before found there => ?_⟩
    obtain ⟨rest, rfl, read⟩ := (reads before found).mp there
    rw [eq_none_of_leftmost result (List.suffix_append before rest)] at read
    cases read

theorem typeNamed_iff (line before name : List Char) :
    TypeNamed line before name ↔ ∃ rest, line = before ++ rest ∧ typeNameHere? rest = some name := by
  simp only [typeNameHere_eq_some]
  constructor
  · rintro ⟨filled, plain, after, rfl⟩
    exact ⟨_, rfl, filled, plain, after, rfl⟩
  · rintro ⟨rest, rfl, filled, plain, after, rfl⟩
    exact ⟨filled, plain, after, rfl⟩

theorem functionNamed_iff (line before tail : List Char) : FunctionNamed line before tail ↔
    ∃ rest, line = before ++ rest ∧ functionTailHere? rest = some tail := by
  simp only [functionTailHere_eq_some]
  constructor
  · rintro ⟨filled, plain, after, rfl, ends⟩
    exact ⟨_, rfl, filled, plain, after, rfl, ends⟩
  · rintro ⟨rest, rfl, filled, plain, after, rfl, ends⟩
    exact ⟨filled, plain, after, rfl, ends⟩

theorem namePart_cutParameters (tail : List Char) : NamePart tail (cutParameters tail) := by
  rw [cutParameters]
  by_cases generic : '<' ∈ tail
  · rw [if_pos (by simpa using generic)]
    obtain ⟨plain, after, parts⟩ := (takeWhile_ne_eq_iff_of_mem generic).mp rfl
    exact .inl ⟨after, plain, parts⟩
  · rw [if_neg (by simpa using generic)]
    refine .inr ⟨generic, ?_⟩
    by_cases listed : '(' ∈ tail
    · obtain ⟨plain, after, parts⟩ := (takeWhile_ne_eq_iff_of_mem listed).mp rfl
      exact .inl ⟨after, plain, parts⟩
    · exact .inr ⟨listed, takeWhile_ne_eq_iff.mpr ⟨listed, [], (List.append_nil tail).symm, nofun⟩⟩

theorem titled_typeTitle (line : List Char) : Titled .type line (typeTitle line) := by
  rw [typeTitle]
  rcases leftmost_cases (typeNamed_iff line) with
    ⟨before, name, found, first⟩ | ⟨nothing, never⟩
  · rw [found]
    exact .inl ⟨before, name, _, first, Text.trimmed_trim name, rfl⟩
  · rw [nothing]
    exact .inr ⟨never, rfl⟩

theorem titled_functionTitle (line : List Char) : Titled .function line (functionTitle line) := by
  rw [functionTitle]
  rcases leftmost_cases (functionNamed_iff line) with
    ⟨before, tail, found, first⟩ | ⟨nothing, never⟩
  · rw [found]
    exact .inl ⟨before, tail, _, first, namePart_cutParameters tail, Text.trimmed_trim _⟩
  · rw [nothing]
    exact .inr ⟨never, rfl⟩

/-- The title of a unit is the name behind the leftmost occurrence of its keyword that one follows.
The heading of a unit of a source is one line. -/
theorem title_leftmost (u : ExportedUnit) :
    Titled u.kind u.firstLine.toList u.title.toList ∧ ∀ text, u ∈ extract text →
      '\n' ∉ u.title.toList ∧ ∀ baseUrl path,
        (Text.lines (fragment baseUrl path u)).head? = some ("## " ++ u.title) := by
  refine ⟨?_, fun text member => ?_⟩
  · rw [ExportedUnit.title, String.toList_ofList]
    cases u.kind with
    | type => exact titled_typeTitle _
    | function => exact titled_functionTitle _
  · have legible := legible_extract text u member
    have plain := legible.plain _ (List.mem_append_left _ legible.firstLine_mem)
    refine ⟨ExportedUnit.newline_not_mem_title plain, fun baseUrl path => ?_⟩
    rw [legible.lines_fragment]
    rfl

def lateUnit : ExportedUnit := ⟨.type, ["export type =export type A =", ""], [], ⟨0, 1⟩⟩

theorem title_leftmost_late : lateUnit ∈ extract "export type =export type A =\n" ∧
    lateUnit.title = "type A" ∧
    Titled .type "export type =export type A =".toList "type A".toList ∧
    ∀ baseUrl path, (Text.lines (fragment baseUrl path lateUnit)).head? = some "## type A" := by
  have inSource : lateUnit ∈ extract "export type =export type A =\n" := by decide +kernel
  have named : lateUnit.title = "type A" := by decide +kernel
  obtain ⟨titled, heading⟩ := title_leftmost lateUnit
  obtain ⟨-, headed⟩ := heading _ inSource
  rw [named] at titled headed
  exact ⟨inSource, named, titled, headed⟩

end SourcePages
