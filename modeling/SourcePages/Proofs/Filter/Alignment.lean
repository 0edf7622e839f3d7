import Mathlib.Data.List.Basic
import SourcePages.Filter.Alignment

namespace SourcePages

theorem fits_nil {name : List Char} : Fits [] name ↔ name = [] := by
  constructor
  · intro fits
    cases fits
    rfl
  · rintro rfl
    exact .nil

theorem fits_char {c : Char} (other : c ≠ '*') {segment name : List Char} :
    Fits (c :: segment) name ↔ ∃ rest, name = c :: rest ∧ Fits segment rest := by
  constructor
  · intro fits
    cases fits with
    | char _ fits => exact ⟨_, rfl, fits⟩
    | star => exact absurd rfl other
  · rintro ⟨rest, rfl, fits⟩
    exact .char other fits

theorem fits_star {segment name : List Char} :
    Fits ('*' :: segment) name ↔ ∃ run rest, name = run ++ rest ∧ Fits segment rest := by
  constructor
  · intro fits
    cases fits with
    | char other => exact absurd rfl other
    | star run fits => exact ⟨run, _, rfl, fits⟩
  · rintro ⟨run, rest, rfl, fits⟩
    exact .star run fits

theorem aligned_cons {standings : List Standing} {segment : List Char}
    {rest path : List (List Char)} : Aligned standings (segment :: rest) path ↔
      ∃ covered others more, standings = ⟨segment, covered⟩ :: more ∧ path = covered ++ others ∧
        Standing.Allowed ⟨segment, covered⟩ ∧ Aligned more rest others := by
  constructor
  · rintro ⟨patterns, covers, allowed⟩
    cases standings with
    | nil => cases patterns
    | cons s more =>
      obtain ⟨rfl, rest⟩ := List.cons_eq_cons.mp patterns
      obtain ⟨first, others⟩ := List.forall_mem_cons.mp allowed
      exact ⟨s.covered, more.flatMap Standing.covered, more, rfl, covers.symm, first,
        rest, rfl, others⟩
  · rintro ⟨covered, others, more, rfl, rfl, allowed, rfl, rfl, all⟩
    exact ⟨rfl, rfl, List.forall_mem_cons.mpr ⟨allowed, all⟩⟩

def Filled (standings : List Standing) : Prop :=
  ∀ s ∈ standings.getLast?, s.pattern = anySegments → s.covered ≠ []

/-- Whether double stars at the end that are not the whole pattern cover something. -/
def Ended (standings : List Standing) : Prop :=
  ∀ before s, standings = before ++ [s] → before ≠ [] → s.pattern = anySegments → s.covered ≠ []

theorem filled_cons {s : Standing} {more : List Standing} : Filled (s :: more) ↔
    (more = [] → s.pattern = anySegments → s.covered ≠ []) ∧ Filled more := by
  cases more <;> simp [Filled]

def Reaches (pattern path : List (List Char)) : Prop :=
  ∃ standings, Aligned standings pattern path ∧ Filled standings

section

variable {segment : List Char} {rest path : List (List Char)}

theorem reaches_nil : Reaches [] path ↔ path = [] := by
  constructor
  · rintro ⟨standings, ⟨patterns, rfl, -⟩, -⟩
    rw [List.map_eq_nil_iff.mp patterns]
    rfl
  · rintro rfl
    exact ⟨[], ⟨rfl, rfl, nofun⟩, nofun⟩

theorem reaches_cons : Reaches (segment :: rest) path ↔
    ∃ covered others, path = covered ++ others ∧ Standing.Allowed ⟨segment, covered⟩ ∧
      (rest = [] → segment = anySegments → covered ≠ []) ∧ Reaches rest others := by
  constructor
  · rintro ⟨standings, aligned, filled⟩
    obtain ⟨covered, others, more, rfl, rfl, allowed, later⟩ := aligned_cons.mp aligned
    obtain ⟨last, filled⟩ := filled_cons.mp filled
    refine ⟨covered, others, rfl, allowed, fun empty => last ?_, more, later, filled⟩
    exact List.map_eq_nil_iff.mp (later.1.trans empty)
  · rintro ⟨covered, others, rfl, allowed, last, more, aligned, filled⟩
    refine ⟨⟨segment, covered⟩ :: more, ?_, filled_cons.mpr ⟨fun empty => last ?_, filled⟩⟩
    · exact aligned_cons.mpr ⟨covered, others, more, rfl, rfl, allowed, aligned⟩
    · rw [← aligned.1, empty]
      rfl

theorem reaches_segment (single : segment ≠ anySegments) : Reaches (segment :: rest) path ↔
    ∃ name others, path = name :: others ∧ Fits segment name ∧ Reaches rest others := by
  rw [reaches_cons]
  constructor
  · rintro ⟨covered, others, rfl, allowed, -, reaches⟩
    obtain ⟨name, rfl, fits⟩ := allowed.resolve_left single
    exact ⟨name, others, rfl, fits, reaches⟩
  · rintro ⟨name, others, rfl, fits, reaches⟩
    exact ⟨[name], others, rfl, .inr ⟨name, rfl, fits⟩, fun _ double => absurd double single,
      reaches⟩

theorem reaches_end : Reaches [anySegments] path ↔ path ≠ [] := by
  rw [reaches_cons]
  constructor
  · rintro ⟨covered, others, rfl, -, filled, reaches⟩
    rw [reaches_nil.mp reaches, List.append_nil]
    exact filled rfl rfl
  · intro filled
    exact ⟨path, [], (List.append_nil path).symm, .inl rfl, fun _ _ => filled, reaches_nil.mpr rfl⟩

theorem reaches_double (filled : rest ≠ []) : Reaches (anySegments :: rest) path ↔
    ∃ before behind, path = before ++ behind ∧ Reaches rest behind := by
  rw [reaches_cons]
  constructor
  · rintro ⟨before, behind, parts, -, -, reaches⟩
    exact ⟨before, behind, parts, reaches⟩
  · rintro ⟨before, behind, parts, reaches⟩
    exact ⟨before, behind, parts, .inl rfl, fun empty => absurd empty filled, reaches⟩

theorem reaches_twice :
    Reaches (anySegments :: anySegments :: rest) path ↔ Reaches (anySegments :: rest) path := by
  rw [reaches_double (List.cons_ne_nil _ _)]
  constructor
  · rintro ⟨before, behind, rfl, reaches⟩
    cases rest with
    | nil =>
      rw [reaches_end] at reaches ⊢
      simp [reaches]
    | cons next more =>
      rw [reaches_double (List.cons_ne_nil _ _)] at reaches ⊢
      obtain ⟨inside, behind, rfl, reaches⟩ := reaches
      exact ⟨before ++ inside, behind, (List.append_assoc ..).symm, reaches⟩
  · intro reaches
    exact ⟨[], path, rfl, reaches⟩

end

theorem reaches_iff_ended {pattern path : List (List Char)} (nonempty : path ≠ []) :
    Reaches pattern path ↔ ∃ standings, Aligned standings pattern path ∧ Ended standings := by
  refine exists_congr fun standings => and_congr_right fun aligned => ?_
  constructor
  · rintro filled before s rfl - double
    exact filled s (by simp) double
  · intro ended s last double
    obtain ⟨before, rfl⟩ := List.getLast?_eq_some_iff.mp last
    cases before with
    | nil =>
      -- Double stars that are the whole pattern cover the whole path.
      obtain ⟨-, rfl, -⟩ := aligned
      simpa using nonempty
    | cons first more => exact ended _ s rfl (List.cons_ne_nil _ _) double

end SourcePages
