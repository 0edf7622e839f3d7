import Mathlib.Logic.Relation
import SourcePages.Proofs.FileTree.Budget
import SourcePages.Proofs.FileTree.Growth

namespace SourcePages

def Path.Above : Path → Path → Prop := Relation.TransGen fun q p => p.parent? = some q

def Path.AtOrAbove : Path → Path → Prop := Relation.ReflTransGen fun q p => p.parent? = some q

theorem Path.AtOrAbove.above {q p r : Path} (h : q.AtOrAbove p) (parent : r.parent? = some p) :
    q.Above r := .tail' h parent

namespace FileTree

theorem atOrAbove_of_mem_chain {n : Nat} {p q : Path} (member : q ∈ chain n p) :
    q.AtOrAbove p := by
  induction n generalizing p with
  | zero => cases member
  | succ n ih =>
    rw [chain] at member
    rcases List.mem_cons.mp member with rfl | further
    · exact .refl
    · split at further
      · rename_i parent above
        exact .tail (ih further) above
      · cases further

section

variable {n m : Node}

theorem walk_filled {entries : List (String × Node)}
    (kept : ∀ place face, n.seen? place = some face → m.seen? place = some face)
    {budget : Nat} {here directory : Location} {steps : List String} {name : String} {wanted : Bool}
    (walked : walk n false budget here false steps = .ok (.vacant directory name wanted))
    (made : m.at? (directory ++ [name]) = some (.dir entries)) (wantsDirectory : Bool) :
    walk m true budget here wantsDirectory steps =
      .ok (.node (directory ++ [name]) (.dir entries)) := by
  match steps with
  | [] =>
    rw [walk] at walked
    split at walked
    · split at walked <;> cases walked
    · cases walked
  | next :: rest =>
    rw [walk_cons] at walked ⊢
    cases top : n.seen? here with
    | none => rw [top] at walked; cases walked
    | some face =>
      cases face with
      | file bytes => rw [top] at walked; cases walked
      | link target => rw [top] at walked; cases walked
      | dir =>
        rw [top] at walked
        rw [kept _ _ top]
        dsimp only at walked ⊢
        by_cases up : next = ".."
        · rw [if_pos up] at walked ⊢
          exact walk_filled kept walked made wantsDirectory
        · rw [if_neg up] at walked ⊢
          cases below : n.seen? (here ++ [next]) with
          | none =>
            rw [below] at walked
            dsimp only at walked
            split at walked
            · rename_i last
              cases walked
              rw [Node.seen?_of_at made, List.isEmpty_iff.mp last]
              exact walk_nil_dir made wantsDirectory
            · cases walked
          | some face =>
            rw [below] at walked
            rw [kept _ _ below]
            cases face with
            | file bytes => exact walk_filled kept walked made wantsDirectory
            | dir => exact walk_filled kept walked made wantsDirectory
            | link target =>
              -- A link in the place of the last name is not followed, and is no missing name.
              cases last : rest.isEmpty with
              | true =>
                rw [last] at walked
                cases walked
              | false =>
                rw [last] at walked
                cases budget with
                | zero => cases walked
                | succ budget =>
                  simp only [Bool.false_and, Bool.or_false, Bool.false_eq_true, if_false]
                    at walked ⊢
                  exact walk_filled kept walked made wantsDirectory
termination_by (budget, steps.length)

end

def IsNew (t s : FileTree) (place : Location) : Prop :=
  t.top.seen? place = none ∧ s.top.seen? place ≠ none

/-- What changes when nothing but directories is made, where some paths lead. -/
structure Gains (t s : FileTree) (on : Path → Prop) : Prop where
  workingDir : s.workingDir = t.workingDir
  kept : ∀ place face, t.top.seen? place = some face → s.top.seen? place = some face
  gained : ∀ place, t.IsNew s place → s.top.seen? place = some .dir ∧
    ∃ p, on p ∧ ∃ entries, s.node? p = .ok (place, .dir entries)
  bare : ∀ place name, t.IsNew s place → s.top.seen? (place ++ [name]) ≠ none →
    t.IsNew s (place ++ [name])

theorem IsNew.entry {t s : FileTree} {place : Location} {name : String} (new : t.IsNew s place)
    (there : s.top.seen? (place ++ [name]) ≠ none) : t.IsNew s (place ++ [name]) := by
  refine ⟨?_, there⟩
  by_contra before
  have dir := Node.seen_dir_of_below before
  rw [new.1] at dir
  cases dir

namespace Gains

variable {t s u : FileTree} {on also : Path → Prop}

theorem refl (t : FileTree) : t.Gains t on where
  workingDir := rfl
  kept _ _ seen := seen
  gained _ new := absurd new.1 new.2
  bare _ _ new := absurd new.1 new.2

theorem mono (gains : t.Gains s on) (wider : ∀ p, on p → also p) : t.Gains s also where
  workingDir := gains.workingDir
  kept := gains.kept
  gained place new := by
    obtain ⟨dir, p, own, leads⟩ := gains.gained place new
    exact ⟨dir, p, wider p own, leads⟩
  bare := gains.bare

theorem grows (gains : t.Gains s on) : t.Grows s :=
  ⟨gains.workingDir, fun place face seen => ⟨face, gains.kept place face seen, .same face⟩⟩

theorem trans (first : t.Gains s on) (second : s.Gains u on) : t.Gains u on where
  workingDir := second.workingDir.trans first.workingDir
  kept place face seen := second.kept place face (first.kept place face seen)
  gained place new := by
    cases mid : s.top.seen? place with
    | none => exact second.gained place ⟨mid, new.2⟩
    | some face =>
      have early : s.top.seen? place ≠ none := by
        rw [mid]
        exact Option.some_ne_none face
      obtain ⟨dir, p, own, entries, leads⟩ := first.gained place ⟨new.1, early⟩
      exact ⟨second.kept place _ dir, p, own, second.grows.node?_dir leads⟩
  bare _ _ new := new.entry

theorem file_iff (gains : t.Gains s on) {place : Location} {bytes : List UInt8} :
    s.top.seen? place = some (.file bytes) ↔ t.top.seen? place = some (.file bytes) := by
  constructor
  · intro file
    cases before : t.top.seen? place with
    | none =>
      have new : t.IsNew s place := ⟨before, by rw [file]; exact Option.some_ne_none _⟩
      rw [(gains.gained place new).1] at file
      cases file
    | some face =>
      rw [gains.kept place face before] at file
      exact file
  · exact gains.kept place _

end Gains

theorem Opened.eq_of_new {t s : FileTree} {above place : Location} {name : String}
    (opened : t.Opened s (above ++ [name])) (dir : t.top.seen? above = some .dir)
    (new : t.IsNew s place) : place = above ++ [name] := by
  have there := new.2
  rw [opened.seen] at there
  split at there
  · rename_i inside
    rcases List.prefix_concat_iff.mp inside with same | higher
    · exact same
    · have before := new.1
      rw [Node.seen_dir_above higher dir] at before
      cases before
  · exact absurd new.1 there

theorem gains_makeDirectory {t s : FileTree} {p : Path} (made : t.makeDirectory p = .ok s) :
    t.Gains s (· = p) := by
  obtain ⟨directory, name, wanted, filled, walked, ⟨-, dir, missing⟩, rfl⟩ := makeDirectory_ok made
  have nothing : t.top.seen? (directory ++ [name]) = none := Option.map_eq_none_iff.mpr missing
  have opened : t.Opened (t.put (directory ++ [name]) (.dir [])) (directory ++ [name]) :=
    .put dir nothing
  refine ⟨rfl, fun _ _ => opened.kept dir nothing, fun place new => ?_, fun _ _ new => new.entry⟩
  obtain ⟨entries, found⟩ := Node.at?_of_seen_dir opened.there
  have leads := walk_filled (fun _ _ => opened.kept dir nothing) walked found p.wantsDirectory
  rw [start, ← opened.workingDir] at leads
  rw [opened.eq_of_new dir new]
  refine ⟨opened.there, p, rfl, entries, ?_⟩
  rw [node?, resolve, if_neg filled, leads]

theorem gains_makeChain {t : FileTree} (paths : List Path) :
    t.Gains (t.makeChain paths).1 (· ∈ paths) := by
  refine makeChain_induction (motive := fun s => t.Gains s (· ∈ paths)) paths (.refl t) ?_
  intro s u p member before made
  exact before.trans ((gains_makeDirectory made).mono fun q same => same ▸ member)

theorem gains_makeDirectories (t : FileTree) (p : Path) :
    t.Gains (t.makeDirectories p).1 (·.AtOrAbove p) :=
  (gains_makeChain _).mono fun _ => atOrAbove_of_mem_chain

end FileTree

end SourcePages
