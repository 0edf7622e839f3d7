import Mathlib.Data.List.FinRange
import SourcePages.Proofs.Project.Collisions

namespace SourcePages

def sharesPage (root : Path) (f g : SourceFile) : Bool :=
  (pagePath root ⟨f.relative⟩).same (pagePath root ⟨g.relative⟩)

theorem sharesPage_iff {root : Path} {f g : SourceFile} : sharesPage root f g ↔
    (pagePath root ⟨f.relative⟩).components = (pagePath root ⟨g.relative⟩).components :=
  Path.same_iff

def ComesFirst (root : Path) (files : List SourceFile) (i : Fin files.length) : Prop :=
  ∀ j < i, ¬ sharesPage root (files.get j) (files.get i)

instance (root : Path) (files : List SourceFile) : DecidablePred (ComesFirst root files) :=
  fun i => inferInstanceAs (Decidable (∀ j < i, ¬ sharesPage root (files.get j) (files.get i)))

def ComesFirstAfter (root : Path) (before files : List SourceFile) (i : Fin files.length) : Prop :=
  (∀ f ∈ before, ¬ sharesPage root f (files.get i)) ∧ ComesFirst root files i

instance (root : Path) (before files : List SourceFile) :
    DecidablePred (ComesFirstAfter root before files) :=
  fun i => inferInstanceAs (Decidable ((∀ f ∈ before, ¬ sharesPage root f (files.get i)) ∧
    ComesFirst root files i))

def filesAt (files : List SourceFile) (test : Fin files.length → Bool) : List SourceFile :=
  ((List.finRange files.length).filter test).map files.get

section

variable {f : SourceFile} {rest : List SourceFile} {test : Fin (f :: rest).length → Bool}

theorem finRange_cons (f : SourceFile) (rest : List SourceFile) :
    List.finRange (f :: rest).length =
      ⟨0, Nat.zero_lt_succ _⟩ :: (List.finRange rest.length).map Fin.succ := List.finRange_succ

theorem filesAt_taken (first : test ⟨0, Nat.zero_lt_succ _⟩ = true) :
    filesAt (f :: rest) test = f :: filesAt rest fun i => test i.succ := by
  rw [filesAt, finRange_cons, List.filter_cons_of_pos first, List.filter_map, List.map_cons,
    List.map_map]
  rfl

theorem filesAt_left (first : ¬ test ⟨0, Nat.zero_lt_succ _⟩ = true) :
    filesAt (f :: rest) test = filesAt rest fun i => test i.succ := by
  rw [filesAt, finRange_cons, List.filter_cons_of_neg first, List.filter_map, List.map_map]
  rfl

end

section

variable {root : Path} {before : List SourceFile} {f : SourceFile} {rest : List SourceFile}

theorem comesFirstAfter_zero :
    ComesFirstAfter root before (f :: rest) ⟨0, Nat.zero_lt_succ _⟩ ↔
      ∀ g ∈ before, ¬ sharesPage root g f := by
  refine and_iff_left_of_imp fun _ j earlier => ?_
  exact absurd earlier (Nat.not_lt_zero _)

theorem comesFirstAfter_succ (i : Fin rest.length) :
    ComesFirstAfter root before (f :: rest) i.succ ↔
      ComesFirstAfter root (before ++ [f]) rest i := by
  have shifted : ComesFirst root (f :: rest) i.succ ↔
      ¬ sharesPage root f (rest.get i) ∧ ComesFirst root rest i := by
    constructor
    · intro first
      exact ⟨first 0 (Fin.succ_pos i), fun j earlier => first j.succ (Fin.succ_lt_succ_iff.mpr earlier)⟩
    · rintro ⟨own, first⟩ j earlier
      cases j using Fin.cases with
      | zero => exact own
      | succ j => exact first j (Fin.succ_lt_succ_iff.mp earlier)
  rw [ComesFirstAfter, ComesFirstAfter, shifted, List.forall_mem_append, List.forall_mem_singleton,
    and_assoc]
  rfl

end

/-- Whether the pages that are given answer for each file as the files before it do: with the first of
them that has its page. -/
def Answers (root : Path) (given : List PageOwner) (before : List SourceFile) : Prop :=
  ∀ f : SourceFile, (given.find? (·.output.same (pagePath root ⟨f.relative⟩))).map PageOwner.owner =
    (before.find? (sharesPage root · f)).map SourceFile.relative

namespace Answers

variable {root : Path} {given : List PageOwner} {before : List SourceFile} {f : SourceFile}
  (answers : Answers root given before)

include answers

theorem taken {page : PageOwner}
    (found : given.find? (·.output.same (pagePath root ⟨f.relative⟩)) = some page) :
    ∃ owner, before.find? (sharesPage root · f) = some owner ∧ page.owner = owner.relative := by
  have own := answers f
  rw [found, Option.map_some] at own
  obtain ⟨owner, first, relative⟩ := Option.map_eq_some_iff.mp own.symm
  exact ⟨owner, first, relative.symm⟩

theorem fresh (free : given.find? (·.output.same (pagePath root ⟨f.relative⟩)) = none) :
    ∀ g ∈ before, ¬ sharesPage root g f := by
  have own := answers f
  rw [free, Option.map_none] at own
  exact List.find?_eq_none.mp (Option.map_eq_none_iff.mp own.symm)

theorem skip {owner : SourceFile} (first : before.find? (sharesPage root · f) = some owner) :
    Answers root given (before ++ [f]) := by
  intro g
  rw [answers g, List.find?_append]
  cases found : before.find? (sharesPage root · g) with
  | some other => rfl
  | none =>
    have apart : ¬ sharesPage root f g := by
      intro shared
      have member := List.mem_of_find?_eq_some first
      have same : sharesPage root owner f := by simpa using List.find?_some first
      rw [sharesPage_iff] at shared same
      exact List.find?_eq_none.mp found owner member (sharesPage_iff.mpr (same.trans shared))
    simp [apart]

theorem give (f : SourceFile) :
    Answers root (given ++ [⟨pagePath root ⟨f.relative⟩, f.relative⟩]) (before ++ [f]) := by
  intro g
  have own := answers g
  rw [List.find?_append, List.find?_append]
  cases found : before.find? (sharesPage root · g) with
  | some owner =>
    rw [found, Option.map_some] at own
    obtain ⟨page, first, relative⟩ := Option.map_eq_some_iff.mp own
    simp [first, relative]
  | none =>
    rw [found, Option.map_none, Option.map_eq_none_iff] at own
    have page : (pagePath root ⟨f.relative⟩).same (pagePath root ⟨g.relative⟩) =
        sharesPage root f g := rfl
    rw [own, List.find?_singleton, List.find?_singleton, page]
    cases sharesPage root f g with
    | true => rfl
    | false => rfl

end Answers

theorem splitFiles_after {root : Path} {given : List PageOwner} {before : List SourceFile}
    (files : List SourceFile) (answers : Answers root given before) :
    (splitFiles root given files).unique = filesAt files (ComesFirstAfter root before files ·) ∧
    (splitFiles root given files).collided.map Collision.file =
      filesAt files (¬ ComesFirstAfter root before files ·) ∧
    ∀ c ∈ (splitFiles root given files).collided, c.output = pagePath root ⟨c.file.relative⟩ ∧
      ∃ owner, (before ++ files).find? (sharesPage root · c.file) = some owner ∧
        c.owner = owner.relative := by
  -- The files before the list grow as it is gone through, and what is given answers as they do.
  induction files generalizing given before with
  | nil => exact ⟨rfl, rfl, by simp [splitFiles]⟩
  | cons f rest ih =>
    have behind : before ++ f :: rest = before ++ [f] ++ rest := by simp
    cases found : given.find? (·.output.same (pagePath root ⟨f.relative⟩)) with
    | some page =>
      obtain ⟨owner, first, relative⟩ := answers.taken found
      have later : ¬ ComesFirstAfter root before (f :: rest) ⟨0, Nat.zero_lt_succ _⟩ := by
        intro own
        exact comesFirstAfter_zero.mp own owner (List.mem_of_find?_eq_some first)
          (by simpa using List.find?_some first)
      obtain ⟨unique, collided, told⟩ := ih (answers.skip first)
      rw [splitFiles_taken found, filesAt_left (mt of_decide_eq_true later),
        filesAt_taken (decide_eq_true later), List.map_cons, collided, unique, behind]
      simp only [comesFirstAfter_succ]
      refine ⟨trivial, trivial, List.forall_mem_cons.mpr ⟨⟨rfl, owner, ?_, relative⟩, told⟩⟩
      rw [List.append_assoc, List.find?_append, first]
      rfl
    | none =>
      have own : ComesFirstAfter root before (f :: rest) ⟨0, Nat.zero_lt_succ _⟩ :=
        comesFirstAfter_zero.mpr (answers.fresh found)
      obtain ⟨unique, collided, told⟩ := ih (answers.give f)
      rw [splitFiles_fresh found, filesAt_taken (decide_eq_true own),
        filesAt_left (mt of_decide_eq_true (not_not_intro own)), collided, unique, behind]
      simp only [comesFirstAfter_succ]
      exact ⟨trivial, trivial, told⟩

/-- Files that are divided into those that come first with their page and those that share the page
of an earlier one. -/
structure Split.FirstWins (root : Path) (files : List SourceFile) (s : Split) : Prop where
  unique : s.unique = filesAt files (ComesFirst root files ·)
  collided : s.collided.map Collision.file = filesAt files (¬ ComesFirst root files ·)
  apart : s.unique.Pairwise fun f g => ¬ sharesPage root f g
  told : ∀ c ∈ s.collided, ∃ owner ∈ s.unique,
    files.find? (sharesPage root · c.file) = some owner ∧
      c.message = "Output " ++ (pagePath root ⟨c.file.relative⟩).text ++ " collides with " ++
        owner.relative

theorem comesFirstAfter_nil {root : Path} {files : List SourceFile} (i : Fin files.length) :
    ComesFirstAfter root [] files i ↔ ComesFirst root files i := by
  simp [ComesFirstAfter]

theorem mem_filesAt_of_find {root : Path} {files : List SourceFile} {f owner : SourceFile}
    (first : files.find? (sharesPage root · f) = some owner) :
    owner ∈ filesAt files (ComesFirst root files ·) := by
  obtain ⟨shared, i, inside, found, earlier⟩ := List.find?_eq_some_iff_getElem.mp first
  refine List.mem_map.mpr ⟨⟨i, inside⟩, List.mem_filter.mpr ⟨List.mem_finRange _, ?_⟩, found⟩
  refine decide_eq_true fun j before same => ?_
  have apart := earlier j before
  rw [List.get_eq_getElem, List.get_eq_getElem, found, sharesPage_iff] at same
  rw [Bool.not_eq_true', Bool.eq_false_iff] at apart
  exact apart (sharesPage_iff.mpr (same.trans (sharesPage_iff.mp shared)))

theorem splitFiles_firstWins (root : Path) (files : List SourceFile) :
    (splitFiles root [] files).FirstWins root files := by
  have answers : Answers root [] [] := fun f => rfl
  obtain ⟨unique, collided, told⟩ := splitFiles_after files answers
  simp only [comesFirstAfter_nil] at unique collided
  refine ⟨unique, collided, ?_, ?_⟩
  · refine unique_pairwise.imp fun apart => ?_
    rw [sharesPage, apart]
    exact Bool.false_ne_true
  · intro c member
    obtain ⟨output, owner, first, relative⟩ := told c member
    refine ⟨owner, ?_, first, ?_⟩
    · rw [unique]
      exact mem_filesAt_of_find first
    · rw [Collision.message, output, relative]

end SourcePages
