import SourcePages.Proofs.FileTree.Resolve

namespace SourcePages

namespace FileTree

section

variable {n : Node} {followLast : Bool}

theorem walk_budget {budget more : Nat} {here : Location} {wantsDirectory : Bool}
    {steps : List String} (le : budget ≤ more)
    (fine : walk n followLast budget here wantsDirectory steps ≠ .error .linkLoop) :
    walk n followLast more here wantsDirectory steps =
      walk n followLast budget here wantsDirectory steps := by
  match steps with
  | [] => rw [walk, walk]
  | name :: rest =>
    rw [walk_cons] at fine
    rw [walk_cons, walk_cons]
    cases top : n.seen? here with
    | none => rfl
    | some face =>
      cases face with
      | file bytes => rfl
      | link target => rfl
      | dir =>
        rw [top] at fine
        dsimp only at fine ⊢
        by_cases up : name = ".."
        · rw [if_pos up] at fine
          rw [if_pos up, if_pos up]
          exact walk_budget le fine
        · rw [if_neg up] at fine
          rw [if_neg up, if_neg up]
          cases next : n.seen? (here ++ [name]) with
          | none => rfl
          | some face =>
            rw [next] at fine
            cases face with
            | file bytes => exact walk_budget le fine
            | dir => exact walk_budget le fine
            | link target =>
              dsimp only at fine ⊢
              split at fine
              · rename_i last
                rw [if_pos last, if_pos last]
              · rename_i passed
                rw [if_neg passed, if_neg passed]
                cases budget with
                | zero => exact absurd rfl fine
                | succ budget =>
                  cases more with
                  | zero => cases le
                  | succ more => exact walk_budget (Nat.le_of_succ_le_succ le) fine
termination_by (budget, steps.length)

theorem walk_unlooped (free : n.LinkFree) {budget : Nat} {here : Location} {wantsDirectory : Bool}
    {steps : List String} :
    walk n followLast budget here wantsDirectory steps ≠ .error .linkLoop := by
  fun_induction walk n followLast budget here wantsDirectory steps with
  | case1 | case2 | case3 | case5 | case6 | case7 | case11 | case12 =>
    intro same
    cases same
  | case4 budget here wantsDirectory rest entries dir ih => exact ih
  | case8 here wantsDirectory name rest entries dir plain target found passed =>
    have link : n.at? (here ++ [name]) = some (.link target) := by
      rw [Node.at?_append, dir]
      simp [Node.at?, Node.child?, found]
    exact absurd link free.not_link
  | case9 here wantsDirectory name rest entries dir plain text found passed budget target ih =>
    exact ih
  | case10 budget here wantsDirectory name rest entries dir plain x solid found ih => exact ih

theorem walk_nil_dir {budget : Nat} {here : Location} {entries : List (String × Node)}
    (dir : n.at? here = some (.dir entries)) (wantsDirectory : Bool) :
    walk n followLast budget here wantsDirectory [] = .ok (.node here (.dir entries)) := by
  rw [walk_nil dir]
  simp [Node.isDir]

theorem walk_append {budget : Nat} {here mid : Location} {wanted : Bool} {before : List String}
    {entries : List (String × Node)}
    (walked : walk n true budget here wanted before = .ok (.node mid (.dir entries))) :
    n.at? mid = some (.dir entries) ∧ ∃ left, ∀ wantsDirectory after,
      walk n true budget here wantsDirectory (before ++ after) =
        walk n true left mid wantsDirectory after := by
  match before with
  | [] =>
    rw [walk] at walked
    split at walked
    · rename_i found
      split at walked
      · cases walked
      · cases walked
        exact ⟨found, budget, fun _ _ => rfl⟩
    · cases walked
  | name :: rest =>
    rw [walk_cons] at walked
    simp only [List.cons_append, walk_cons]
    cases top : n.seen? here with
    | none => rw [top] at walked; cases walked
    | some face =>
      cases face with
      | file bytes => rw [top] at walked; cases walked
      | link target => rw [top] at walked; cases walked
      | dir =>
        rw [top] at walked
        dsimp only at walked ⊢
        by_cases up : name = ".."
        · rw [if_pos up] at walked
          simp only [if_pos up]
          exact walk_append walked
        · rw [if_neg up] at walked
          simp only [if_neg up]
          cases next : n.seen? (here ++ [name]) with
          | none =>
            rw [next] at walked
            dsimp only at walked
            split at walked <;> cases walked
          | some face =>
            rw [next] at walked
            cases face with
            | file bytes => exact walk_append walked
            | dir => exact walk_append walked
            | link target =>
              cases budget with
              | zero => simp at walked
              | succ budget =>
                simp only [Bool.not_true, Bool.and_false, Bool.false_and, Bool.false_eq_true,
                  if_false] at walked ⊢
                obtain ⟨dir, left, further⟩ := walk_append walked
                refine ⟨dir, left, fun wantsDirectory after => ?_⟩
                rw [← List.append_assoc, further]
                -- A link at the end may want a directory of its own, and has found one.
                cases after with
                | nil => rw [walk_nil_dir dir, walk_nil_dir dir]
                | cons name others =>
                  have more : (rest ++ name :: others).isEmpty = false := by simp
                  rw [more, Bool.false_and, Bool.or_false]
termination_by (budget, before.length)

end

end FileTree

theorem Path.wantsDirectory_join {p q : Path} (filled : p.text ≠ "")
    (relative : q.isAbsolute = false) : (p.join q).wantsDirectory = q.wantsDirectory := by
  obtain ⟨front, joined, -⟩ := split_join_text filled relative
  obtain ⟨before, last, pieces⟩ :=
    (List.eq_nil_or_concat' (Text.split '/' q.text.toList)).resolve_left (Text.split_ne_nil _ _)
  rw [Path.wantsDirectory, Path.wantsDirectory, Text.segments, Text.segments, joined, pieces]
  simp

namespace FileTree

variable {t : FileTree} {p q x : Path} {location : Location} {entries : List (String × Node)}

theorem resolve_join (found : t.node? p = .ok (location, .dir entries))
    (relative : x.isAbsolute = false) : ∃ left,
      t.resolve true (p.join x) = walk t.top true left location x.wantsDirectory x.steps := by
  have resolved := resolve_of_node found
  unfold resolve at resolved
  split at resolved
  · cases resolved
  · rename_i filled
    obtain ⟨-, left, further⟩ := walk_append resolved
    refine ⟨left, ?_⟩
    have text : (p.join x).text ≠ "" := by
      obtain ⟨front, joined, -⟩ := Path.text_join filled relative
      intro empty
      rw [empty] at joined
      simp at joined
    rw [resolve, if_neg text, ← start, start_eq_of_anchor (Path.anchor_join filled relative),
      Path.wantsDirectory_join filled relative, Path.steps_join filled relative]
    exact further _ _

/-- Behind two paths to a directory, a path leads to the same, unless it is stopped for the links
that are followed. -/
theorem node?_join_eq (left : t.node? p = .ok (location, .dir entries))
    (right : t.node? q = .ok (location, .dir entries)) (relative : x.isAbsolute = false)
    (fine : t.node? (p.join x) ≠ .error .linkLoop) (other : t.node? (q.join x) ≠ .error .linkLoop) :
    t.node? (p.join x) = t.node? (q.join x) := by
  obtain ⟨few, first⟩ := resolve_join left relative
  obtain ⟨many, second⟩ := resolve_join right relative
  have unlooped : ∀ y : Path, t.node? y ≠ .error .linkLoop →
      t.resolve true y ≠ .error .linkLoop := by
    intro y fine looped
    rw [node?, looped] at fine
    exact fine rfl
  have fine := unlooped _ fine
  have other := unlooped _ other
  rw [first] at fine
  rw [second] at other
  have same : t.resolve true (p.join x) = t.resolve true (q.join x) := by
    rw [first, second]
    rcases Nat.le_total few many with le | le
    · exact (walk_budget le fine).symm
    · exact walk_budget le other
  rw [node?, node?, same]

theorem node?_unlooped (free : t.top.LinkFree) : t.node? p ≠ .error .linkLoop := by
  intro looped
  unfold node? resolve at looped
  split at looped
  · cases looped
  · cases looped
  · rename_i e stopped
    cases looped
    split at stopped
    · cases stopped
    · exact walk_unlooped free stopped

end FileTree

end SourcePages
