import SourcePages.Text.Split

namespace SourcePages.Text

theorem join_cons_cons {α : Type} (between piece next : List α) (others : List (List α)) :
    join between (piece :: next :: others) = piece ++ between ++ join between (next :: others) :=
  rfl

theorem suffix_join {α : Type} (between : List α) (before : List (List α)) (piece : List α) :
    piece <:+ join between (before ++ [piece]) := by
  induction before with
  | nil => exact List.suffix_rfl
  | cons first rest ih =>
    cases rest with
    | nil => exact List.suffix_append _ _
    | cons next others => exact ih.trans (List.suffix_append _ _)

theorem exists_around_join {α : Type} (separator : α) (before after : List (List α))
    (piece : List α) : ∃ front back, join [separator] (before ++ piece :: after) =
        front ++ piece ++ back ∧ (front = [] ∨ ∃ start, front = start ++ [separator]) ∧
      (back = [] ∨ ∃ rest, back = separator :: rest) := by
  induction before with
  | nil =>
    refine ⟨[], ?_⟩
    cases after with
    | nil => exact ⟨[], (List.append_nil piece).symm, .inl rfl, .inl rfl⟩
    | cons next others =>
      exact ⟨_, List.append_assoc piece [separator] _, .inl rfl, .inr ⟨_, rfl⟩⟩
  | cons first rest ih =>
    obtain ⟨front, back, joined, starts, ends⟩ := ih
    have whole : join [separator] (first :: rest ++ piece :: after) =
        first ++ [separator] ++ join [separator] (rest ++ piece :: after) := by
      cases rest <;> rfl
    refine ⟨first ++ [separator] ++ front, back, ?_, .inr ?_, ends⟩
    · rw [whole, joined]
      simp only [List.append_assoc]
    · rcases starts with rfl | ⟨start, rfl⟩
      · exact ⟨first, List.append_nil _⟩
      · exact ⟨first ++ [separator] ++ start, (List.append_assoc _ _ _).symm⟩

section

variable {α : Type} [DecidableEq α] {separator : α}

theorem exists_around_of_mem_split {s piece : List α} (member : piece ∈ split separator s) :
    ∃ front back, s = front ++ piece ++ back ∧
      (front = [] ∨ ∃ start, front = start ++ [separator]) ∧
      (back = [] ∨ ∃ rest, back = separator :: rest) := by
  obtain ⟨before, after, pieces⟩ := List.append_of_mem member
  have around := exists_around_join separator before after piece
  rwa [← pieces, join_split] at around

theorem suffix_of_getLast_split {s piece : List α}
    (last : (split separator s).getLast? = some piece) : piece <:+ s := by
  obtain ⟨before, pieces⟩ := List.getLast?_eq_some_iff.mp last
  have joined := suffix_join [separator] before piece
  rwa [← pieces, join_split] at joined

theorem not_mem_of_mem_split {s piece : List α} (member : piece ∈ split separator s) :
    separator ∉ piece := by
  induction s generalizing piece with
  | nil =>
    rw [List.mem_singleton.mp member]
    exact List.not_mem_nil
  | cons a rest ih =>
    have filled := split_ne_nil separator rest
    by_cases h : a = separator
    · rw [split, if_pos h] at member
      rcases List.mem_cons.mp member with rfl | member
      · exact List.not_mem_nil
      · exact ih member
    · rw [split, if_neg h] at member
      revert ih filled member
      cases split separator rest with
      | nil => simp
      | cons first pieces =>
        intro ih member _
        rcases List.mem_cons.mp member with rfl | member
        · intro inside
          rcases List.mem_cons.mp inside with same | inside
          · exact h same.symm
          · exact ih List.mem_cons_self inside
        · exact ih (List.mem_cons_of_mem _ member)

theorem split_of_not_mem {s : List α} (absent : separator ∉ s) : split separator s = [s] := by
  induction s with
  | nil => rfl
  | cons a rest ih =>
    have other : a ≠ separator := fun same => absent (same ▸ List.mem_cons_self)
    rw [split, if_neg other, ih fun inside => absent (List.mem_cons_of_mem _ inside)]

theorem length_split (s : List α) : (split separator s).length = s.count separator + 1 := by
  induction s with
  | nil => rfl
  | cons a rest ih =>
    by_cases h : a = separator
    · rw [split, if_pos h, h, List.count_cons_self, List.length_cons, ih]
    · have filled := split_ne_nil separator rest
      rw [split, if_neg h, List.count_cons_of_ne h, ← ih]
      revert filled
      cases split separator rest <;> simp

theorem split_join {pieces : List (List α)} (filled : pieces ≠ []) :
    split separator (join [separator] pieces) = pieces.flatMap (split separator) := by
  induction pieces with
  | nil => exact absurd rfl filled
  | cons piece rest ih =>
    cases rest with
    | nil => simp [join]
    | cons next others =>
      have later := ih (List.cons_ne_nil _ _)
      rw [join_cons_cons, List.append_assoc, List.singleton_append, split_append_separator, later]
      rfl

end

theorem not_mem_of_mem_lines {text line : String} (member : line ∈ lines text) :
    '\n' ∉ line.toList := by
  obtain ⟨piece, inside, rfl⟩ := List.mem_map.mp member
  rw [String.toList_ofList]
  exact not_mem_of_mem_split inside

theorem lines_of_not_mem {line : String} (plain : '\n' ∉ line.toList) : lines line = [line] := by
  simp [lines, split_of_not_mem plain]

theorem lines_joinWith {texts : List String} (filled : texts ≠ []) :
    lines (joinWith "\n" texts) = texts.flatMap lines := by
  have unwrap : (texts.map String.toList) ≠ [] := by simpa using filled
  simp only [lines, joinWith, String.toList_ofList]
  change List.map _ (split '\n' (join ['\n'] _)) = _
  rw [split_join unwrap]
  simp only [List.flatMap_map, List.map_flatMap]
  rfl

theorem lines_injective {a b : String} (same : lines a = lines b) : a = b := by
  rw [← joinWith_lines a, ← joinWith_lines b, same]

theorem length_lines (text : String) : (lines text).length = text.toList.count '\n' + 1 := by
  rw [lines, List.length_map, length_split]

end SourcePages.Text
