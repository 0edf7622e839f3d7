import SourcePages.Filter.Include

/-!
Patterns and paths set side by side, segment by segment: what a pattern of names, stars and double
stars means, said without the matcher.
-/

namespace SourcePages

def anySegments : List Char := ['*', '*']

/-- A segment of a pattern in which no character but a star has a meaning of its own, and no two
stars are neighbours. -/
def IsStarred (segment : List Char) : Prop :=
  (∀ c ∈ segment, c ∉ ['?', '[', ']', '\x7b', '\x7d', ',', '\\']) ∧ ¬ ['*', '*'] <:+: segment

/-- A segment of a pattern fits a name if some runs of characters in place of its stars give it. -/
inductive Fits : List Char → List Char → Prop where
  | nil : Fits [] []
  | char {c : Char} {pattern name : List Char} :
      c ≠ '*' → Fits pattern name → Fits (c :: pattern) (c :: name)
  | star (run : List Char) {pattern name : List Char} :
      Fits pattern name → Fits ('*' :: pattern) (run ++ name)

theorem Fits.self {name : List Char} (h : '*' ∉ name) : Fits name name := by
  induction name with
  | nil => exact .nil
  | cons c rest ih =>
    simp only [List.mem_cons, not_or] at h
    exact .char (Ne.symm h.1) (ih h.2)

structure Standing where
  pattern : List Char
  covered : List (List Char)

def Standing.Allowed (s : Standing) : Prop :=
  s.pattern = anySegments ∨ ∃ name, s.covered = [name] ∧ Fits s.pattern name

def Aligned (standings : List Standing) (pattern path : List (List Char)) : Prop :=
  standings.map Standing.pattern = pattern ∧ standings.flatMap Standing.covered = path ∧
    ∀ s ∈ standings, s.Allowed

theorem Aligned.append {a b : List Standing} {p q r s : List (List Char)} (ha : Aligned a p r)
    (hb : Aligned b q s) : Aligned (a ++ b) (p ++ q) (r ++ s) := by
  obtain ⟨rfl, rfl, allowedA⟩ := ha
  obtain ⟨rfl, rfl, allowedB⟩ := hb
  refine ⟨List.map_append, List.flatMap_append, fun s member => ?_⟩
  rcases List.mem_append.mp member with member | member
  · exact allowedA s member
  · exact allowedB s member

end SourcePages
