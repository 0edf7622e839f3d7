import SourcePages.Unit.Title

namespace SourcePages

namespace Text

theorem mem_of_mem_trimEnd {c : Char} {s : List Char} (h : c ∈ trimEnd s) : c ∈ s := by
  rw [trimEnd, List.mem_reverse] at h
  exact List.mem_reverse.mp ((List.dropWhile_sublist _).mem h)

theorem mem_of_mem_trim {c : Char} {s : List Char} (h : c ∈ trim s) : c ∈ s :=
  (List.dropWhile_sublist _).mem (mem_of_mem_trimEnd h)

end Text

theorem exists_of_leftmost {α : Type} {read? : List Char → Option α} {text : List Char} {a : α}
    (h : leftmost? read? text = some a) : ∃ before rest, text = before ++ rest ∧ read? rest = some a ∧
      ∀ other more, text = other ++ more → read? more ≠ none → before.length ≤ other.length := by
  induction text with
  | nil => exact ⟨[], [], rfl, h, fun _ _ _ _ => Nat.zero_le _⟩
  | cons c rest ih =>
    rw [leftmost?, Option.or_eq_some_iff] at h
    rcases h with here | ⟨nothing, later⟩
    · exact ⟨[], c :: rest, rfl, here, fun _ _ _ _ => Nat.zero_le _⟩
    · obtain ⟨before, tail, rfl, found, first⟩ := ih later
      refine ⟨c :: before, tail, rfl, found, fun other more parts read => ?_⟩
      rcases List.cons_eq_append_iff.mp parts with ⟨-, rfl⟩ | ⟨front, rfl, behind⟩
      · exact absurd nothing read
      · exact Nat.succ_le_succ (first front more behind read)

theorem eq_none_of_leftmost {α : Type} {read? : List Char → Option α} {text : List Char}
    (h : leftmost? read? text = none) {rest : List Char} (inside : rest <:+ text) :
    read? rest = none := by
  induction text with
  | nil => rwa [List.suffix_nil.mp inside]
  | cons c tail ih =>
    obtain ⟨here, later⟩ := Option.or_eq_none_iff.mp h
    rcases List.suffix_cons_iff.mp inside with rfl | inside
    · exact here
    · exact ih later inside

theorem suffix_of_afterKeyword {keyword text rest : List Char}
    (h : afterKeyword? keyword text = some rest) : rest <:+ text := by
  unfold afterKeyword? at h
  split at h
  · cases h
    exact List.drop_suffix _ _
  · cases h

theorem mem_of_mem_typeName {text name : List Char} (h : typeNameHere? text = some name) {c : Char}
    (member : c ∈ name) : c ∈ text := by
  unfold typeNameHere? at h
  obtain ⟨rest, found, here⟩ := Option.bind_eq_some_iff.mp h
  dsimp only at here
  split at here
  · cases here
  · cases here
    exact (suffix_of_afterKeyword found).mem ((List.takeWhile_sublist _).mem member)

theorem mem_of_mem_functionTail {text tail : List Char} (h : functionTailHere? text = some tail)
    {c : Char} (member : c ∈ tail) : c ∈ text := by
  unfold functionTailHere? at h
  obtain ⟨rest, found, here⟩ := Option.bind_eq_some_iff.mp h
  dsimp only at here
  split at here
  · cases here
  · cases here
    exact (suffix_of_afterKeyword found).mem ((List.takeWhile_sublist _).mem member)

theorem mem_of_mem_cutParameters {c : Char} {tail : List Char} (h : c ∈ cutParameters tail) :
    c ∈ tail := by
  unfold cutParameters at h
  split at h <;> exact (List.takeWhile_sublist _).mem h

theorem mem_of_mem_typeTitle {c : Char} {line : List Char} (h : c ∈ typeTitle line) :
    c ∈ "type ".toList ∨ c ∈ line := by
  unfold typeTitle at h
  split at h
  · rename_i name found
    obtain ⟨before, rest, rfl, here, -⟩ := exists_of_leftmost found
    rcases List.mem_append.mp h with word | inName
    · exact .inl word
    · have inRest := mem_of_mem_typeName here (Text.mem_of_mem_trim inName)
      exact .inr (List.mem_append_right before inRest)
  · cases h

theorem mem_of_mem_functionTitle {c : Char} {line : List Char} (h : c ∈ functionTitle line) :
    c ∈ line := by
  unfold functionTitle at h
  split at h
  · rename_i tail found
    obtain ⟨before, rest, rfl, here, -⟩ := exists_of_leftmost found
    have inTail := mem_of_mem_cutParameters (Text.mem_of_mem_trim h)
    exact List.mem_append_right before (mem_of_mem_functionTail here inTail)
  · cases h

theorem ExportedUnit.newline_not_mem_title {u : ExportedUnit}
    (plain : '\n' ∉ u.firstLine.toList) : '\n' ∉ u.title.toList := by
  intro inside
  rw [ExportedUnit.title, String.toList_ofList] at inside
  split at inside
  · rcases mem_of_mem_typeTitle inside with word | inLine
    · revert word
      decide
    · exact plain inLine
  · exact plain (mem_of_mem_functionTitle inside)

end SourcePages
