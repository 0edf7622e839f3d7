import SourcePages.Path.Extension
import SourcePages.Proofs.Path.Parent

namespace SourcePages

theorem exists_last_dot {name : List Char} (dotted : '.' ∈ name) :
    ∃ stem old, name = stem ++ '.' :: old ∧ '.' ∉ old := by
  obtain ⟨behind, before, back, plain⟩ :=
    List.eq_append_cons_of_mem (List.mem_reverse.mpr dotted)
  have turned := congrArg List.reverse back
  rw [List.reverse_reverse, List.reverse_append, List.reverse_cons] at turned
  exact ⟨before.reverse, behind.reverse, by simpa using turned, by simpa using plain⟩

theorem splitExtension_last {stem old : List Char} (plain : '.' ∉ old) :
    splitExtension (stem ++ '.' :: old) =
      if stem = [] then ('.' :: old, none) else (stem, some old) := by
  have taken : ((stem ++ '.' :: old).reverse.takeWhile (· ≠ '.')).reverse = old := by
    rw [List.reverse_append, List.reverse_cons, List.append_assoc, List.singleton_append,
      List.takeWhile_append_of_pos]
    · simp
    · intro c inside
      have other : c ≠ '.' := fun same => plain (same ▸ List.mem_reverse.mp inside)
      simp [other]
  have length : (stem ++ '.' :: old).length - old.length - 1 = stem.length := by
    simp only [List.length_append, List.length_cons]
    omega
  unfold splitExtension
  rw [if_pos (by simp)]
  simp only [taken, length, List.take_left, List.isEmpty_iff]
  split
  · rename_i empty
    rw [empty, List.nil_append]
  · rfl

theorem splitExtension_some {name stem old : List Char}
    (h : splitExtension name = (stem, some old)) : name = stem ++ '.' :: old ∧ stem ≠ [] := by
  by_cases dotted : '.' ∈ name
  · obtain ⟨front, rest, rfl, plain⟩ := exists_last_dot dotted
    rw [splitExtension_last plain] at h
    split at h
    · cases h
    · rename_i filled
      cases h
      exact ⟨rfl, filled⟩
  · simp [splitExtension, dotted] at h

theorem splitExtension_none {name stem : List Char} (h : splitExtension name = (stem, none)) :
    stem = name := by
  unfold splitExtension at h
  split at h
  · dsimp only at h
    split at h
    · cases h
      rfl
    · cases h
  · cases h
    rfl

theorem byteSize_append (a b : List Char) : byteSize (a ++ b) = byteSize a + byteSize b := by
  induction a with
  | nil => simp [byteSize]
  | cons c rest ih => rw [List.cons_append, byteSize, byteSize, ih, Nat.add_assoc]

theorem takeBytes_append (a b : List Char) : takeBytes (byteSize a) (a ++ b) = a := by
  induction a with
  | nil => cases b <;> simp [takeBytes, byteSize]
  | cons c rest ih =>
    have size : 0 < c.utf8Size := Char.utf8Size_pos c
    rw [List.cons_append, byteSize, takeBytes, if_neg (by omega), Nat.add_sub_cancel_left, ih]

/-- The name of the page of a file. A second dot with an extension is no name, but leads upwards. -/
def pageName (name : List Char) : List Char :=
  match splitExtension name with
  | (stem, none) => stem ++ ['.', 'm', 'd']
  | (stem, some _) => if stem = ['.'] then ['.', '.'] else stem ++ ['.', 'm', 'd']

theorem pageName_cases {name : List Char} (filled : name ≠ []) :
    (pageName name = ['.', '.'] ∧ ∃ old, name = '.' :: '.' :: old) ∨
    ∃ stem tail, name = stem ++ tail ∧ stem ≠ [] ∧ pageName name = stem ++ ['.', 'm', 'd'] := by
  unfold pageName
  split
  · rename_i stem cut
    have whole := splitExtension_none cut
    exact .inr ⟨stem, [], by rw [whole, List.append_nil], by rwa [whole], rfl⟩
  · rename_i stem old cut
    obtain ⟨parts, stemFilled⟩ := splitExtension_some cut
    by_cases dot : stem = ['.']
    · rw [if_pos dot]
      exact .inl ⟨rfl, old, by rw [parts, dot]; rfl⟩
    · rw [if_neg dot]
      exact .inr ⟨stem, _, parts, stemFilled, rfl⟩

def TakesName (front : List Char) : Prop := front = [] ∨ ∃ before, front = before ++ ['/']

namespace TakesName

variable {front : List Char} (ends : TakesName front)

include ends

theorem append (before : List Char) : TakesName (before ++ '/' :: front) := by
  right
  rcases ends with rfl | ⟨more, rfl⟩
  · exact ⟨before, rfl⟩
  · exact ⟨before ++ '/' :: more, by simp⟩

theorem split_append : ∃ pieces, Text.split '/' front = pieces ++ [[]] ∧
    ∀ rest, Text.split '/' (front ++ rest) = pieces ++ Text.split '/' rest := by
  rcases ends with rfl | ⟨before, rfl⟩
  · exact ⟨[], rfl, fun rest => rfl⟩
  · refine ⟨Text.split '/' before, Text.split_append_separator '/' before [], fun rest => ?_⟩
    rw [List.append_assoc, List.singleton_append, Text.split_append_separator]

end TakesName

section

variable {p : Path} {front name : List Char} (text : p.text.toList = front ++ name)
  (ends : TakesName front) (plain : '/' ∉ name)

include text ends plain

theorem split_sibling : ∃ pieces, Text.split '/' front = pieces ++ [[]] ∧
    Text.split '/' p.text.toList = pieces ++ [name] := by
  obtain ⟨pieces, own, further⟩ := ends.split_append
  exact ⟨pieces, own, by rw [text, further, Text.split_of_not_mem plain]⟩

theorem body_sibling (named : Path.isIdle name = false) : ∃ before, p.body = before ++ [name] := by
  obtain ⟨pieces, -, split⟩ := split_sibling text ends plain
  rcases p.split_text with ⟨body, -⟩ | ⟨body, -⟩ | ⟨more, body, begins, -⟩
  · exact ⟨pieces, body.symm.trans split⟩
  · rw [split] at body
    cases pieces with
    | nil =>
      rw [(List.cons.inj body).1] at named
      cases named
    | cons first rest => exact ⟨rest, (List.cons.inj body).2.symm⟩
  · rw [split] at begins
    cases pieces with
    | nil =>
      rw [(List.cons.inj begins).1] at named
      cases named
    | cons first rest =>
      refine ⟨[] :: rest, ?_⟩
      rw [body, ← (List.cons.inj begins).2]
      rfl

theorem steps_sibling (named : Path.isIdle name = false) :
    p.steps =
      ((Text.split '/' front).filter (!Path.isIdle ·)).map String.ofList ++ [String.ofList name] := by
  obtain ⟨pieces, own, split⟩ := split_sibling text ends plain
  have idle : Path.isIdle [] = true := rfl
  rw [Path.steps_eq_segments, split, own, List.filter_append, List.filter_append, List.map_append]
  simp [named, idle]

theorem trimIdleEnd_eq (named : Path.isIdle name = false) : trimIdleEnd p = p.text.toList := by
  obtain ⟨before, body⟩ := body_sibling text ends plain named
  rw [trimIdleEnd, body, Path.dropEndWhile_concat, if_neg (by simp [named]), ← body, ← p.text_eq]

theorem fileName?_eq (named : Path.isIdle name = false) :
    p.fileName? = if name = ['.', '.'] then none else some (String.ofList name) := by
  have up : String.ofList name = ".." ↔ name = ['.', '.'] := Path.ofList_eq_iff
  rw [Path.fileName?_of_steps (steps_sibling text ends plain named)]
  by_cases dots : name = ['.', '.']
  · rw [if_pos (up.mpr dots), if_pos dots]
  · rw [if_neg fun same => dots (up.mp same), if_neg dots]

theorem text_replaceStemEnd {stem tail extension : List Char} {old : Option (List Char)}
    (parts : name = stem ++ tail) (cut : splitExtension name = (stem, old))
    (named : Path.isIdle name = false) (notUp : name ≠ ['.', '.']) :
    (p.replaceStemEnd extension).text.toList = front ++ stem ++ '.' :: extension := by
  unfold Path.replaceStemEnd
  rw [fileName?_eq text ends plain named, if_neg notUp]
  simp only [String.toList_ofList, cut, trimIdleEnd_eq text ends plain named]
  have whole : p.text.toList = (front ++ stem) ++ tail := by simp [text, parts]
  have length : (front ++ stem ++ tail).length - (name.length - stem.length) =
      (front ++ stem).length := by
    simp only [parts, List.length_append]
    omega
  rw [whole, length, List.take_left]

theorem text_replaceStemEnd_dotted {stem : List Char} (dotted : name = stem ++ ['.'])
    (filled : stem ≠ []) : (p.replaceStemEnd ['m', 'd']).text.toList =
      front ++ if stem = ['.'] then ['.', '.'] else stem ++ ['.', 'm', 'd'] := by
  have named : Path.isIdle name = false := by
    rw [dotted]
    cases stem with
    | nil => exact absurd rfl filled
    | cons c rest => simp [Path.isIdle]
  by_cases dot : stem = ['.']
  · have up : name = ['.', '.'] := by rw [dotted, dot, List.singleton_append]
    rw [if_pos dot, Path.replaceStemEnd, fileName?_eq text ends plain named, if_pos up, text, up]
  · have notUp : name ≠ ['.', '.'] := by
      intro same
      rw [dotted] at same
      exact dot (List.append_inj' same rfl).1
    have cut : splitExtension name = (stem, some []) := by
      rw [dotted, splitExtension_last List.not_mem_nil, if_neg filled]
    rw [if_neg dot, text_replaceStemEnd text ends plain dotted cut named notUp]
    simp

theorem text_withExtension (named : Path.isIdle name = false) (notUp : name ≠ ['.', '.']) :
    (p.withExtension ['m', 'd']).text.toList = front ++ pageName name := by
  unfold Path.withExtension pageName
  rw [fileName?_eq text ends plain named, if_neg notUp]
  simp only [String.toList_ofList]
  cases cut : splitExtension name with
  | mk stem old =>
    cases old with
    | none =>
      have whole := splitExtension_none cut
      have parts : name = stem ++ [] := by rw [whole, List.append_nil]
      rw [text_replaceStemEnd text ends plain parts cut named notUp]
      simp
    | some old =>
      obtain ⟨parts, filled⟩ := splitExtension_some cut
      have whole : p.text.toList = (front ++ (stem ++ ['.'])) ++ old := by
        simp [text, parts]
      have bytes : byteSize p.text.toList - byteSize old =
          byteSize (front ++ (stem ++ ['.'])) := by
        rw [whole, byteSize_append]
        omega
      have left : '/' ∉ stem ++ ['.'] := by
        rw [parts, List.mem_append] at plain
        intro inside
        rcases List.mem_append.mp inside with inside | inside
        · exact plain (.inl inside)
        · cases List.mem_singleton.mp inside
      simp only [bytes]
      rw [whole, takeBytes_append]
      exact text_replaceStemEnd_dotted String.toList_ofList ends left rfl filled

end

theorem anchor_sibling {p q : Path} {front a b : List Char} (ends : TakesName front)
    (left : p.text.toList = front ++ a) (plainLeft : '/' ∉ a) (namedLeft : Path.isIdle a = false)
    (right : q.text.toList = front ++ b) (plainRight : '/' ∉ b)
    (namedRight : Path.isIdle b = false) : p.anchor = q.anchor := by
  rcases ends with rfl | ⟨before, rfl⟩
  · rw [List.nil_append] at left right
    have first : Text.split '/' p.text.toList = [a] := by rw [left, Text.split_of_not_mem plainLeft]
    have second : Text.split '/' q.text.toList = [b] := by
      rw [right, Text.split_of_not_mem plainRight]
    rw [(Path.anchor_of_named first namedLeft).1, (Path.anchor_of_named second namedRight).1]
  · rw [List.append_assoc] at left right
    cases before with
    | nil => simp [Path.anchor, left, right]
    | cons c more =>
      have cut : (⟨String.ofList (c :: more)⟩ : Path).text.toList = c :: more := String.toList_ofList
      rw [Path.anchor_of_slash (List.cons_ne_nil _ _) left cut,
        Path.anchor_of_slash (List.cons_ne_nil _ _) right cut]

def pageFile (name : String) : String := String.ofList (pageName name.toList)

theorem pageName_plain {name : List Char} (plain : '/' ∉ name) : '/' ∉ pageName name := by
  by_cases filled : name = []
  · subst filled
    decide
  · rcases pageName_cases filled with ⟨up, -⟩ | ⟨stem, tail, parts, -, page⟩
    · rw [up]
      decide
    · rw [page]
      intro inside
      rcases List.mem_append.mp inside with inside | inside
      · exact plain (parts ▸ List.mem_append_left _ inside)
      · simp at inside

theorem pageFile_cases {name : String} (proper : IsName name) :
    pageFile name = ".." ∨ IsName (pageFile name) := by
  have up : "..".toList = ['.', '.'] := by decide
  have dot : ".".toList = ['.'] := by decide
  have filled : name.toList ≠ [] := fun empty => proper.1 (String.toList_inj.mp empty)
  rcases pageName_cases filled with ⟨page, -⟩ | ⟨stem, tail, -, stemFilled, page⟩
  · exact .inl (Path.ofList_eq_iff.mpr (page.trans up.symm))
  · have length : 3 < (pageName name.toList).length := by
      have long : 0 < stem.length := List.length_pos_iff.mpr stemFilled
      rw [page, List.length_append]
      exact Nat.add_lt_add_right long 3
    refine .inr ⟨?_, ?_, ?_, ?_⟩
    · intro same
      rw [Path.ofList_eq_iff.mp same] at length
      exact absurd length (by decide)
    · intro same
      rw [Path.ofList_eq_iff.mp same, dot] at length
      exact absurd length (by decide)
    · intro same
      rw [Path.ofList_eq_iff.mp same, up] at length
      exact absurd length (by decide)
    · rw [pageFile, String.toList_ofList]
      exact pageName_plain proper.2.2.2

theorem pageFile_named {name : String} (proper : IsName name) :
    Path.isIdle (pageFile name).toList = false := by
  rcases pageFile_cases proper with up | named
  · rw [up]
    decide
  · exact named.named

section

variable {dirs : List String} {name : String} (proper : ∀ part ∈ dirs ++ [name], IsName part)

include proper

theorem exists_front_join (out : Path) : ∃ front, TakesName front ∧
    (out.join ⟨Text.joinWith "/" (dirs ++ [name])⟩).text.toList = front ++ name.toList := by
  have relative := relative_joined proper (by simp)
  obtain ⟨front, ends, text⟩ : ∃ front, TakesName front ∧
      (Text.joinWith "/" (dirs ++ [name])).toList = front ++ name.toList := by
    rw [toList_joinWith_slash, List.map_append, List.map_singleton]
    by_cases empty : dirs = []
    · exact ⟨[], .inl rfl, by rw [empty]; rfl⟩
    · refine ⟨Text.join ['/'] (dirs.map String.toList) ++ ['/'], .inr ⟨_, rfl⟩, ?_⟩
      rw [Path.join_concat (by simpa using empty)]
      simp
  by_cases filled : out.text = ""
  · rw [Path.join_of_empty filled]
    exact ⟨front, ends, text⟩
  · obtain ⟨top, joined, -⟩ := Path.text_join filled relative
    refine ⟨top ++ '/' :: front, ends.append top, ?_⟩
    rw [joined, text]
    simp

/-- The page of a file is at the place of the file, but under the output directory and with another
last name. -/
theorem pagePath_spec (out : Path) :
    (pagePath out ⟨Text.joinWith "/" (dirs ++ [name])⟩).anchor = out.anchor ∧
      (pagePath out ⟨Text.joinWith "/" (dirs ++ [name])⟩).steps =
        out.steps ++ dirs ++ [pageFile name] ∧
      (pagePath out ⟨Text.joinWith "/" (dirs ++ [name])⟩).EndsIn (pageFile name) := by
  have last : IsName name := proper name (by simp)
  have listed : dirs ++ [name] ≠ [] := by simp
  obtain ⟨anchor, steps⟩ := out.join_plain (anchor_names proper listed)
  rw [steps_joined proper listed] at steps
  obtain ⟨front, ends, text⟩ := exists_front_join proper out
  have notUp : name.toList ≠ ['.', '.'] := by
    intro same
    exact last.not_up (String.toList_inj.mp (same.trans (by decide)))
  have page := text_withExtension text ends last.2.2.2 last.named notUp
  have plain := pageName_plain last.2.2.2
  have named : Path.isIdle (pageName name.toList) = false := by
    simpa [pageFile] using pageFile_named last
  rw [steps_sibling text ends last.2.2.2 last.named, ← List.append_assoc] at steps
  refine ⟨?_, ?_, ?_⟩
  · exact (anchor_sibling ends page plain named text last.2.2.2 last.named).trans anchor
  · rw [pagePath, steps_sibling page ends plain named, (List.append_inj' steps rfl).1]
    rfl
  · obtain ⟨pieces, -, split⟩ := split_sibling page ends plain
    refine ⟨pieces, ?_⟩
    rw [pagePath, split, pageFile, String.toList_ofList]

end

end SourcePages
