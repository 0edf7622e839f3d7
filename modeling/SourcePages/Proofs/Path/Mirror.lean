import SourcePages.Proofs.Path.Page

namespace SourcePages

/-- What a name has as its stem: the part in front of its last dot, or the whole name if it has no
dot but a leading one. -/
inductive IsStem (name : String) : String → Prop where
  | whole (leading : '.' ∉ name.toList.tail) : IsStem name name
  | cut {stem : String} {rest : List Char} (parts : name.toList = stem.toList ++ '.' :: rest)
      (last : '.' ∉ rest) (filled : stem ≠ "") : IsStem name stem

theorem isStem_iff {name stem : String} :
    IsStem name stem ↔ (splitExtension name.toList).1 = stem.toList := by
  constructor
  · intro h
    cases h with
    | whole leading =>
      cases parts : splitExtension name.toList with
      | mk front old =>
        cases old with
        | none => exact splitExtension_none parts
        | some old =>
          obtain ⟨dotted, filled⟩ := splitExtension_some parts
          obtain ⟨c, more, rfl⟩ := List.exists_cons_of_ne_nil filled
          rw [dotted] at leading
          simp at leading
    | cut parts last filled => rw [parts, splitExtension_last last, if_neg (by simpa using filled)]
  · intro front
    -- The last dot decides, unless it is also the first character.
    by_cases dotted : '.' ∈ name.toList
    · obtain ⟨before, rest, parts, last⟩ := exists_last_dot dotted
      rw [parts, splitExtension_last last] at front
      by_cases first : before = []
      · rw [first, List.nil_append] at parts
        rw [if_pos first] at front
        have same : name = stem := String.toList_inj.mp (parts.trans front)
        rw [← same]
        exact .whole (by rwa [parts, List.tail_cons])
      · rw [if_neg first] at front
        subst front
        exact .cut parts last (by simpa using first)
    · have plain : splitExtension name.toList = (name.toList, none) := by
        simp [splitExtension, dotted]
      rw [plain] at front
      have same : name = stem := String.toList_inj.mp front
      rw [← same]
      exact .whole fun inside => dotted (List.mem_of_mem_tail inside)

def stemPage (stem : String) : String := if stem = "." then ".." else stem ++ ".md"

theorem stemPage_ne_up {stem : String} (other : stem ≠ ".") : stemPage stem = stem ++ ".md" ∧
    stemPage stem ≠ ".." := by
  have page : stemPage stem = stem ++ ".md" := if_neg other
  refine ⟨page, fun up => ?_⟩
  have texts := congrArg (fun s => s.toList.getLast?) (page.symm.trans up)
  simp at texts

theorem stemPage_injective {a b : String} (same : stemPage a = stemPage b) : a = b := by
  by_cases left : a = "."
  · by_cases right : b = "."
    · rw [left, right]
    · exact absurd (same.symm.trans (if_pos left)) (stemPage_ne_up right).2
  · by_cases right : b = "."
    · exact absurd (same.trans (if_pos right)) (stemPage_ne_up left).2
    · rw [(stemPage_ne_up left).1, (stemPage_ne_up right).1] at same
      have texts := congrArg String.toList same
      rw [String.toList_append, String.toList_append] at texts
      exact String.toList_inj.mp (List.append_cancel_right texts)

theorem pageFile_eq_stemPage {name stem : String} (proper : IsName name) (h : IsStem name stem) :
    pageFile name = stemPage stem := by
  have front := isStem_iff.mp h
  have dot : stem = "." ↔ stem.toList = ['.'] := String.toList_inj.symm
  rw [pageFile, Path.ofList_eq_iff, pageName]
  cases parts : splitExtension name.toList with
  | mk before old =>
    rw [parts] at front
    subst front
    cases old with
    | none =>
      have other : stem ≠ "." := by
        intro same
        have whole := splitExtension_none parts
        exact proper.2.1 ((String.toList_inj.mp whole).symm.trans same)
      simp [stemPage, other]
    | some old =>
      by_cases same : stem = "."
      · simp [stemPage, same]
      · simp [stemPage, same, mt dot.mpr same]

def namesPath (names : List String) : Path := ⟨Text.joinWith "/" names⟩

/-- A page that is in the directory of its source, below some other root, and has the name of a stem.
The stem that is a dot gives it none. -/
structure Mirrors (out relative : Path) (stem : String) : Prop where
  inside : ∃ above directory, relative.parent? = some above ∧
    (pagePath out relative).parent? = some directory ∧ directory.same (out.join above)
  name : (pagePath out relative).fileName? = if stem = "." then none else some (stem ++ ".md")

section

variable (out : Path) {dirs : List String} {name stem : String}
  (proper : ∀ part ∈ dirs ++ [name], IsName part) (h : IsStem name stem)

include proper h

theorem pagePath_of_stem : (pagePath out (namesPath (dirs ++ [name]))).anchor = out.anchor ∧
    (pagePath out (namesPath (dirs ++ [name]))).steps = out.steps ++ dirs ++ [stemPage stem] := by
  obtain ⟨anchor, steps, -⟩ := pagePath_spec proper out
  rw [pageFile_eq_stemPage (proper name (by simp)) h] at steps
  exact ⟨anchor, steps⟩

theorem mirrors : Mirrors out (namesPath (dirs ++ [name])) stem := by
  have listed : dirs ++ [name] ≠ [] := by simp
  obtain ⟨anchor, steps⟩ := pagePath_of_stem out proper h
  constructor
  · obtain ⟨above, own, plain, names, -⟩ := Path.exists_parent (steps_joined proper listed)
    obtain ⟨directory, parent, same, left, -⟩ := Path.exists_parent steps
    refine ⟨above, directory, own, parent, ?_⟩
    obtain ⟨joined, further⟩ := out.join_plain (plain.trans (anchor_names proper listed))
    rw [Path.same_iff_steps, joined, further, same, left, anchor, names]
    exact ⟨rfl, rfl⟩
  · rw [Path.fileName?_of_steps steps]
    by_cases dot : stem = "."
    · have up : stemPage stem = ".." := if_pos dot
      rw [if_pos dot, if_pos up]
    · rw [if_neg dot, if_neg (stemPage_ne_up dot).2, (stemPage_ne_up dot).1]

end

/-- Each page is in the directory that mirrors the one of its source, under the stem of its name, and
two sources have the same page exactly when they have the same directory and stem. -/
theorem pages_mirror (out : Path) {dirs : List String} {name stem : String}
    (proper : ∀ part ∈ dirs ++ [name], IsName part) (h : IsStem name stem) :
    Mirrors out (namesPath (dirs ++ [name])) stem ∧
    ∀ others other otherStem, (∀ part ∈ others ++ [other], IsName part) → IsStem other otherStem →
      ((pagePath out (namesPath (dirs ++ [name]))).same
          (pagePath out (namesPath (others ++ [other]))) ↔ dirs = others ∧ stem = otherStem) := by
  refine ⟨mirrors out proper h, fun others other otherStem otherProper otherCut => ?_⟩
  obtain ⟨anchor, steps⟩ := pagePath_of_stem out proper h
  obtain ⟨otherAnchor, otherSteps⟩ := pagePath_of_stem out otherProper otherCut
  rw [Path.same_iff_steps, anchor, otherAnchor, steps, otherSteps]
  constructor
  · rintro ⟨-, same⟩
    obtain ⟨front, last⟩ := List.append_inj' same rfl
    exact ⟨List.append_cancel_left front, stemPage_injective (List.cons.inj last).1⟩
  · rintro ⟨rfl, rfl⟩
    exact ⟨rfl, rfl⟩

theorem pages_mirror_declarations :
    Mirrors ⟨"docs"⟩ (namesPath ["src", "index.d.ts"]) "index.d" ∧
    (pagePath ⟨"docs"⟩ (namesPath ["src", "index.d.ts"])).same
      (pagePath ⟨"docs"⟩ (namesPath ["src", "index.d.js"])) := by
  have first : IsStem "index.d.ts" "index.d" := isStem_iff.mpr (by decide +kernel)
  have second : IsStem "index.d.js" "index.d" := isStem_iff.mpr (by decide +kernel)
  have firstNames : ∀ part ∈ ["src"] ++ ["index.d.ts"], IsName part := by decide +kernel
  have secondNames : ∀ part ∈ ["src"] ++ ["index.d.js"], IsName part := by decide +kernel
  obtain ⟨mirrored, shared⟩ := pages_mirror ⟨"docs"⟩ firstNames first
  exact ⟨mirrored, (shared ["src"] "index.d.js" "index.d" secondNames second).mpr ⟨rfl, rfl⟩⟩

/-- A name whose stem is a dot has the directory above as its page. -/
theorem page_unmirrored : IsName "..a" ∧ IsStem "..a" "." ∧
    pagePath ⟨"docs"⟩ (namesPath ["..a"]) = ⟨"docs/.."⟩ ∧
    (pagePath ⟨"docs"⟩ (namesPath ["..a"])).fileName? ≠ some ("." ++ ".md") := by
  exact ⟨by decide, isStem_iff.mpr (by decide +kernel), by decide +kernel, by decide +kernel⟩

end SourcePages
