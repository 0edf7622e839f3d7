import SourcePages.Page
import SourcePages.Proofs.Unit.Legible
import SourcePages.Proofs.Unit.Title

/-!
A page tells its units apart although nothing in it is escaped: two texts with the same page have
the same units. The page is read line by line, each fragment up to where its parts end by themselves.
-/

namespace SourcePages

def shownDocs (docs : List String) : List String := if docs = [] then [""] else docs

def fragmentLines (baseUrl path : String) (u : ExportedUnit) : List String :=
  ("## " ++ u.title) :: "```javascript" :: (u.signature ++ ("```" :: (shownDocs u.docs ++
    Text.lines (sourceLink baseUrl path u))))

section

variable {baseUrl path : String}

theorem lines_of_plain {texts : List String} (plain : ∀ line ∈ texts, '\n' ∉ line.toList) :
    texts.flatMap Text.lines = texts := by
  induction texts with
  | nil => rfl
  | cons line rest ih =>
    rw [List.flatMap_cons, Text.lines_of_not_mem (plain line List.mem_cons_self),
      ih fun other member => plain other (List.mem_cons_of_mem _ member), List.singleton_append]

theorem lines_docs {docs : List String} (plain : ∀ line ∈ docs, '\n' ∉ line.toList) :
    Text.lines (Text.joinWith "\n" docs) = shownDocs docs := by
  by_cases empty : docs = []
  · subst empty
    decide
  · rw [Text.lines_joinWith empty, lines_of_plain plain, shownDocs, if_neg empty]

theorem lines_fence {signature : List String} (filled : signature ≠ [])
    (plain : ∀ line ∈ signature, '\n' ∉ line.toList) :
    Text.lines ("```javascript\n" ++ Text.joinWith "\n" signature ++ "\n```") =
      "```javascript" :: (signature ++ ["```"]) := by
  have spelled : "```javascript\n" ++ Text.joinWith "\n" signature ++ "\n```" =
      "```javascript" ++ "\n" ++ (Text.joinWith "\n" signature ++ "\n" ++ "```") := by
    simp [← String.toList_inj]
  have opening : Text.lines "```javascript" = ["```javascript"] := by decide
  have closing : Text.lines "```" = ["```"] := by decide
  rw [spelled, Text.lines_append, Text.lines_append, Text.lines_joinWith filled,
    lines_of_plain plain, opening, closing, List.singleton_append]

namespace ExportedUnit.Legible

theorem firstLine_mem {u : ExportedUnit} (h : u.Legible) : u.firstLine ∈ u.signature := by
  obtain ⟨first, rest, lines, -⟩ := h.signature.1
  simp only at lines
  simp [firstLine, lines]

theorem lines_fragment {u : ExportedUnit} (h : u.Legible) (baseUrl path : String) :
    Text.lines (fragment baseUrl path u) = fragmentLines baseUrl path u := by
  obtain ⟨plain, plainDocs⟩ := List.forall_mem_append.mp h.plain
  have title : Text.lines ("## " ++ u.title) = ["## " ++ u.title] := by
    apply Text.lines_of_not_mem
    have inTitle := newline_not_mem_title (plain _ h.firstLine_mem)
    simpa using inTitle
  rw [fragment, Text.lines_joinWith (by simp)]
  simp only [List.flatMap_cons, List.flatMap_nil, title, lines_docs plainDocs,
    lines_fence h.signature.1.ne_nil plain]
  simp [fragmentLines]

end ExportedUnit.Legible

theorem flatMap_lines_fragment (baseUrl path : String) {units : List ExportedUnit}
    (legible : ∀ u ∈ units, u.Legible) :
    units.flatMap (fun u => Text.lines (fragment baseUrl path u)) =
      units.flatMap (fragmentLines baseUrl path) := by
  induction units with
  | nil => simp only [List.flatMap_nil]
  | cons u rest ih =>
    have first := (legible u List.mem_cons_self).lines_fragment baseUrl path
    have later := ih fun other member => legible other (List.mem_cons_of_mem _ member)
    simp only [List.flatMap_cons, first, later]

theorem lines_page {units : List ExportedUnit} (legible : ∀ u ∈ units, u.Legible) :
    Text.lines (page baseUrl path units) =
      if units = [] then [""] else units.flatMap (fragmentLines baseUrl path) := by
  by_cases empty : units = []
  · subst empty
    rw [if_pos rfl]
    rfl
  · have filled : units.map (fragment baseUrl path) ≠ [] := by simpa using empty
    have fragments := flatMap_lines_fragment baseUrl path legible
    rw [page, Text.lines_joinWith filled, if_neg empty, ← fragments, List.flatMap_map]

def linkFront (baseUrl path : String) : List Char :=
  ("[View source](" ++ baseUrl ++ "/blob/main/" ++ path ++ "#L").toList

theorem digits_append_inj {m n : Nat} {c : Char} {r s : List Char} (stops : c.isDigit = false)
    (same : Nat.toDigits 10 m ++ c :: r = Nat.toDigits 10 n ++ c :: s) : m = n ∧ r = s := by
  have digits (k : Nat) : ∀ d ∈ Nat.toDigits 10 k, ¬ d.isDigit = false := fun d member => by
    simp [Nat.isDigit_of_mem_toDigits (by decide) (by decide) member]
  obtain ⟨number, -, rest⟩ := split_at_first (digits m) (digits n) stops stops same
  refine ⟨?_, rest⟩
  rw [← Nat.ofDigitChars_ten_toDigits (n := m), number, Nat.ofDigitChars_ten_toDigits]

theorem toList_numbers (front between behind : String) (m n : Nat) :
    (front ++ toString m ++ between ++ toString n ++ behind).toList =
      front.toList ++ (Nat.toDigits 10 m ++ (between.toList ++ (Nat.toDigits 10 n ++
        behind.toList))) := by
  simp

theorem toList_sourceLink (u : ExportedUnit) :
    (sourceLink baseUrl path u).toList = linkFront baseUrl path ++
      (Nat.toDigits 10 u.span.start ++ '-' :: 'L' :: (Nat.toDigits 10 u.span.stop ++ [')'])) :=
  toList_numbers _ "-L" ")" _ _

theorem span_of_sourceLink {u v : ExportedUnit}
    (same : sourceLink baseUrl path u = sourceLink baseUrl path v) : u.span = v.span := by
  have chars := congrArg String.toList same
  rw [toList_sourceLink, toList_sourceLink] at chars
  obtain ⟨start, rest⟩ := digits_append_inj (by decide) (List.append_cancel_left chars)
  obtain ⟨stop, -⟩ := digits_append_inj (by decide) (List.cons.inj rest).2
  rcases u with ⟨_, _, _, ⟨_, _⟩⟩
  rcases v with ⟨_, _, _, ⟨_, _⟩⟩
  simp only at start stop
  rw [start, stop]

theorem length_lines_sourceLink (u : ExportedUnit) :
    (Text.lines (sourceLink baseUrl path u)).length = (linkFront baseUrl path).count '\n' + 1 := by
  have digits (n : Nat) : (Nat.toDigits 10 n).count '\n' = 0 := by
    apply List.count_eq_zero.mpr
    intro member
    have digit := Nat.isDigit_of_mem_toDigits (by decide) (by decide) member
    revert digit
    decide
  rw [Text.length_lines, toList_sourceLink]
  simp [digits]

theorem lines_sourceLink (baseUrl path : String) (u : ExportedUnit) :
    ∃ first rest, Text.lines (sourceLink baseUrl path u) = first :: rest ∧ ¬ opensDoc first := by
  have front : (sourceLink baseUrl path u).toList = '[' :: (sourceLink baseUrl path u).toList.tail := by
    simp [toList_sourceLink, linkFront]
  unfold Text.lines
  rw [front, Text.split]
  simp only [Char.reduceEq, if_false]
  split
  · exact ⟨_, _, rfl, by simp [opensDoc]⟩
  · exact ⟨_, _, rfl, by simp [opensDoc]⟩

theorem shownDocs_append_inj {docs other : List String} (h : Comments docs) (ho : Comments other)
    {first head : String} {r s : List String} (stops : ¬ opensDoc first)
    (stopsOther : ¬ opensDoc head)
    (same : shownDocs docs ++ first :: r = shownDocs other ++ head :: s) :
    docs = other ∧ first :: r = head :: s := by
  unfold shownDocs at same
  have blank : ¬ opensDoc "" := by decide
  rcases h.opens with rfl | ⟨line, rest, rfl, opens⟩
  · rcases ho.opens with rfl | ⟨line, rest, rfl, opens⟩
    · exact ⟨rfl, (List.cons.inj same).2⟩
    · obtain ⟨rfl, -⟩ := List.cons.inj same
      exact absurd opens blank
  · rcases ho.opens with rfl | ⟨other, tail, rfl, -⟩
    · obtain ⟨rfl, -⟩ := List.cons.inj same
      exact absurd opens blank
    · exact h.eq_of_append_eq ho stops stopsOther same

namespace ExportedUnit.Legible

theorem eq_of_fragmentLines {u v : ExportedUnit} (hu : u.Legible) (hv : v.Legible)
    {r s : List String}
    (same : fragmentLines baseUrl path u ++ r = fragmentLines baseUrl path v ++ s) :
    u = v ∧ r = s := by
  simp only [fragmentLines, List.cons_append, List.append_assoc, List.cons.injEq] at same
  obtain ⟨-, -, afterHeading⟩ := same
  -- The signature ends with its closing line, the comments before the link.
  obtain ⟨signatures, afterSignature⟩ := Block.Closed.eq_of_append_eq hu.signature hv.signature
    afterHeading
  obtain ⟨docs, afterDocs⟩ : u.docs = v.docs ∧ Text.lines (sourceLink baseUrl path u) ++ r =
      Text.lines (sourceLink baseUrl path v) ++ s := by
    obtain ⟨first, rest, lines, stops⟩ := lines_sourceLink baseUrl path u
    obtain ⟨head, tail, otherLines, stopsOther⟩ := lines_sourceLink baseUrl path v
    rw [lines, otherLines] at afterSignature ⊢
    exact shownDocs_append_inj hu.docs hv.docs stops stopsOther (List.cons.inj afterSignature).2
  have lengths : (Text.lines (sourceLink baseUrl path u)).length =
      (Text.lines (sourceLink baseUrl path v)).length := by
    rw [length_lines_sourceLink, length_lines_sourceLink]
  obtain ⟨links, rest⟩ := List.append_inj afterDocs lengths
  have span := span_of_sourceLink (Text.lines_injective links)
  refine ⟨?_, rest⟩
  rcases u with ⟨kind, signature, _, _⟩
  rcases v with ⟨otherKind, otherSignature, _, _⟩
  simp only [Block.mk.injEq, Content.declaration.injEq] at signatures docs span
  rw [signatures.1, signatures.2, docs, span]

end ExportedUnit.Legible

theorem eq_of_flatMap_fragmentLines {units others : List ExportedUnit}
    (legible : ∀ u ∈ units, u.Legible) (legibleOthers : ∀ u ∈ others, u.Legible)
    (same : units.flatMap (fragmentLines baseUrl path) =
      others.flatMap (fragmentLines baseUrl path)) : units = others := by
  induction units generalizing others with
  | nil =>
    cases others with
    | nil => rfl
    | cons v others => cases same
  | cons u rest ih =>
    cases others with
    | nil => cases same
    | cons v others =>
      rw [List.flatMap_cons, List.flatMap_cons] at same
      obtain ⟨rfl, further⟩ := (legible u List.mem_cons_self).eq_of_fragmentLines
        (legibleOthers v List.mem_cons_self) same
      rw [ih (fun w member => legible w (List.mem_cons_of_mem _ member))
        (fun w member => legibleOthers w (List.mem_cons_of_mem _ member)) further]

/-- Legible units can be read off their page. -/
theorem page_injective {units others : List ExportedUnit} (legible : ∀ u ∈ units, u.Legible)
    (legibleOthers : ∀ u ∈ others, u.Legible)
    (same : page baseUrl path units = page baseUrl path others) : units = others := by
  have lines := congrArg Text.lines same
  rw [lines_page legible, lines_page legibleOthers] at lines
  have heading (u : ExportedUnit) : "## " ++ u.title ≠ "" := by simp
  cases units with
  | nil =>
    cases others with
    | nil => rfl
    | cons v others =>
      obtain ⟨blank, -⟩ := List.cons.inj lines
      exact absurd blank.symm (heading v)
  | cons u rest =>
    cases others with
    | nil =>
      obtain ⟨blank, -⟩ := List.cons.inj lines
      exact absurd blank (heading u)
    | cons v others =>
      exact eq_of_flatMap_fragmentLines legible legibleOthers lines

end

/-- Two texts have the same page exactly if they have the same units. -/
theorem page_extract_eq_iff (repository : Repository) (path text other : String) :
    (page repository.baseUrl path (extract text) = page repository.baseUrl path (extract other) ↔
      extract text = extract other) ∧
    (pageOfSource repository path text = pageOfSource repository path other ↔
      extract text = extract other) := by
  have decoded : page repository.baseUrl path (extract text) =
      page repository.baseUrl path (extract other) ↔ extract text = extract other :=
    ⟨page_injective (legible_extract text) (legible_extract other), fun same => by rw [same]⟩
  exact ⟨decoded, decoded⟩

end SourcePages
