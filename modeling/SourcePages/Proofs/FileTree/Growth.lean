import SourcePages.Proofs.FileTree.Proper

/-!
Trees that grow as directories are made and files are written, with links or without. What is there
stays, but for the bytes of files, so that a path leads to the same place once it has led there.
-/

namespace SourcePages

/-- What may be seen where something was seen before: a file may have got other bytes. -/
inductive Face.Stays : Face → Face → Prop where
  | same (face : Face) : face.Stays face
  | rewritten (old new : List UInt8) : (Face.file old).Stays (.file new)

theorem Face.Stays.trans {a b c : Face} (first : a.Stays b) (second : b.Stays c) : a.Stays c := by
  cases first with
  | same => exact second
  | rewritten old new =>
    cases second with
    | same => exact .rewritten old new
    | rewritten _ newer => exact .rewritten old newer

theorem Face.Stays.dir_iff {a b : Face} (stays : a.Stays b) : b = .dir ↔ a = .dir := by
  cases stays with
  | same => rfl
  | rewritten old new => exact iff_of_false nofun nofun

namespace Node

def Grows (n m : Node) : Prop :=
  ∀ place face, n.seen? place = some face → ∃ other, m.seen? place = some other ∧ face.Stays other

namespace Grows

variable {n m : Node} {place : Location} (grows : n.Grows m)

include grows

theorem dir (seen : n.seen? place = some .dir) : m.seen? place = some .dir := by
  obtain ⟨other, found, stays⟩ := grows place _ seen
  cases stays
  exact found

theorem link {target : String} (seen : n.seen? place = some (.link target)) :
    m.seen? place = some (.link target) := by
  obtain ⟨other, found, stays⟩ := grows place _ seen
  cases stays
  exact found

theorem file {bytes : List UInt8} (seen : n.seen? place = some (.file bytes)) :
    ∃ new, m.seen? place = some (.file new) := by
  obtain ⟨other, found, stays⟩ := grows place _ seen
  cases stays with
  | same => exact ⟨bytes, found⟩
  | rewritten old new => exact ⟨new, found⟩

end Grows

end Node

namespace FileTree

section

variable {n m : Node} {followLast : Bool}

theorem walk_grown (grows : n.Grows m) {budget : Nat} {here there : Location}
    {wantsDirectory : Bool} {steps : List String} {x : Node}
    (walked : walk n followLast budget here wantsDirectory steps = .ok (.node there x)) :
    ∃ y, walk m followLast budget here wantsDirectory steps = .ok (.node there y) ∧
      x.face.Stays y.face := by
  match steps with
  | [] =>
    cases found : n.at? here with
    | none => rw [walk] at walked; simp [found] at walked
    | some z =>
      obtain ⟨other, seen, stays⟩ := grows here _ (Node.seen?_of_at found)
      obtain ⟨y, still, rfl⟩ := Option.map_eq_some_iff.mp seen
      have kind : y.isDir = z.isDir := by
        rw [y.isDir_eq_face, z.isDir_eq_face]
        exact decide_eq_decide.mpr stays.dir_iff
      rw [walk_nil found] at walked
      rw [walk_nil still, kind]
      split at walked
      · cases walked
      · rename_i wanted
        cases walked
        exact ⟨y, if_neg wanted, stays⟩
  | name :: rest =>
    rw [walk_cons] at walked ⊢
    cases top : n.seen? here with
    | none => rw [top] at walked; cases walked
    | some face =>
      cases face with
      | file bytes => rw [top] at walked; cases walked
      | link target => rw [top] at walked; cases walked
      | dir =>
        rw [top] at walked
        rw [grows.dir top]
        dsimp only at walked ⊢
        by_cases up : name = ".."
        · rw [if_pos up] at walked ⊢
          exact walk_grown grows walked
        · rw [if_neg up] at walked ⊢
          cases next : n.seen? (here ++ [name]) with
          | none =>
            rw [next] at walked
            dsimp only at walked
            split at walked <;> cases walked
          | some face =>
            rw [next] at walked
            cases face with
            | file bytes =>
              obtain ⟨new, still⟩ := grows.file next
              rw [still]
              exact walk_grown grows walked
            | dir =>
              rw [grows.dir next]
              exact walk_grown grows walked
            | link target =>
              rw [grows.link next]
              dsimp only at walked ⊢
              split at walked
              · rename_i last
                cases walked
                exact ⟨_, if_pos last, .same _⟩
              · rename_i passed
                rw [if_neg passed]
                cases budget with
                | zero => cases walked
                | succ budget => exact walk_grown grows walked
termination_by (budget, steps.length)

theorem walk_split {budget : Nat} {here : Location} {wantsDirectory : Bool}
    {before after : List String} {place : Place} (filled : after ≠ [])
    (walked : walk n followLast budget here wantsDirectory (before ++ after) = .ok place) :
    ∃ mid entries left, n.at? mid = some (.dir entries) ∧
      (∀ wanted, walk n true budget here wanted before = .ok (.node mid (.dir entries))) ∧
      walk n followLast left mid wantsDirectory after = .ok place := by
  match before with
  | [] =>
    obtain ⟨name, rest, rfl⟩ := List.exists_cons_of_ne_nil filled
    rw [List.nil_append] at walked
    have passed := walked
    rw [walk_cons] at passed
    cases top : n.seen? here with
    | none => rw [top] at passed; cases passed
    | some face =>
      cases face with
      | file bytes => rw [top] at passed; cases passed
      | link target => rw [top] at passed; cases passed
      | dir =>
        obtain ⟨entries, found⟩ := Node.at?_of_seen_dir top
        refine ⟨here, entries, budget, found, fun wanted => ?_, walked⟩
        rw [walk_nil found]
        simp [Node.isDir]
  | name :: rest =>
    have more : (rest ++ after).isEmpty = false := by simp [filled]
    rw [List.cons_append, walk_cons] at walked
    simp only [walk_cons]
    cases top : n.seen? here with
    | none => rw [top] at walked; cases walked
    | some face =>
      cases face with
      | file bytes => rw [top] at walked; cases walked
      | link target => rw [top] at walked; cases walked
      | dir =>
        rw [top] at walked
        dsimp only at walked ⊢
        by_cases up : name = ".."
        · rw [if_pos up] at walked
          simp only [if_pos up]
          exact walk_split filled walked
        · rw [if_neg up] at walked
          simp only [if_neg up]
          cases next : n.seen? (here ++ [name]) with
          | none =>
            rw [next, more] at walked
            cases walked
          | some face =>
            rw [next] at walked
            cases face with
            | file bytes => exact walk_split filled walked
            | dir => exact walk_split filled walked
            | link target =>
              rw [more] at walked
              cases budget with
              | zero => cases walked
              | succ budget =>
                simp only [Bool.false_and, Bool.or_false, Bool.false_eq_true, if_false,
                  ← List.append_assoc] at walked
                obtain ⟨mid, entries, left, dir, first, second⟩ := walk_split filled walked
                refine ⟨mid, entries, left, dir, fun wanted => ?_, second⟩
                simp only [Bool.not_true, Bool.and_false, Bool.false_and, Bool.false_eq_true,
                  if_false]
                exact first _
termination_by (budget, before.length)

theorem walk_solid {budget : Nat} {here there : Location} {wantsDirectory : Bool}
    {steps : List String} {target : String} (start : ∀ target, n.at? here ≠ some (.link target)) :
    walk n true budget here wantsDirectory steps ≠ .ok (.node there (.link target)) := by
  intro walked
  fun_induction walk n true budget here wantsDirectory steps with
  | case1 | case3 | case5 | case6 | case8 | case11 | case12 => cases walked
  | case2 budget here wantsDirectory x found =>
    cases walked
    exact start target found
  | case4 budget here wantsDirectory rest entries dir ih =>
    refine ih (fun target link => ?_) walked
    have above := Node.seen_dir_above (List.dropLast_prefix here) (Node.seen?_of_at dir)
    rw [Node.seen?_of_at link] at above
    cases above
  | case7 budget here wantsDirectory name rest entries dir plain target found last => simp at last
  | case9 here wantsDirectory name rest entries dir plain text found passed budget target ih =>
    refine ih (fun target link => ?_) walked
    have top := Node.seen_dir_above List.nil_prefix (Node.seen?_of_at dir)
    split at link
    · rw [Node.seen?_of_at link] at top
      cases top
    · rw [dir] at link
      cases link
  | case10 budget here wantsDirectory name rest entries dir plain x solid found ih =>
    refine ih (fun target link => ?_) walked
    have own := Node.lookup_of_at dir link
    rw [found] at own
    exact solid target (Option.some.inj own)

end

theorem node?_split {t : FileTree} {p q : Path} {after : List String} {location : Location}
    {x : Node} (filled : after ≠ []) (text : p.text ≠ "") (anchor : q.anchor = p.anchor)
    (steps : q.steps = p.steps ++ after) (found : t.node? q = .ok (location, x)) :
    ∃ mid entries left, t.node? p = .ok (mid, .dir entries) ∧
      walk t.top true left mid q.wantsDirectory after = .ok (.node location x) := by
  have resolved := resolve_of_node found
  unfold resolve at resolved
  split at resolved
  · cases resolved
  · rw [← start, start_eq_of_anchor anchor, steps] at resolved
    obtain ⟨mid, entries, left, -, first, second⟩ := walk_split filled resolved
    refine ⟨mid, entries, left, ?_, second⟩
    have walked := first p.wantsDirectory
    rw [start] at walked
    rw [node?, resolve, if_neg text, walked]

/-- Whether one tree has become another by making directories and writing files. -/
inductive Edited : FileTree → FileTree → Prop where
  | refl (t : FileTree) : Edited t t
  | made {t s u : FileTree} {p : Path} (before : Edited t s) (made : s.makeDirectory p = .ok u) :
      Edited t u
  | written {t s u : FileTree} {p : Path} {bytes : List UInt8} (before : Edited t s)
      (written : s.write p bytes = .ok u) : Edited t u

theorem Edited.trans {t s u : FileTree} (first : Edited t s) (second : Edited s u) : Edited t u := by
  induction second with
  | refl => exact first
  | made before made ih => exact .made ih made
  | written before written ih => exact .written ih written

/-- What holds of a tree, and of each one in which one more of some directories is made, holds when
the making of them has come to its end or has failed. -/
theorem makeChain_induction {t : FileTree} {motive : FileTree → Prop} (paths : List Path)
    (begun : motive t)
    (next : ∀ s u p, p ∈ paths → motive s → s.makeDirectory p = .ok u → motive u) :
    motive (t.makeChain paths).1 := by
  induction paths with
  | nil => exact begun
  | cons p above ih =>
    have before : motive (t.makeChain above).1 :=
      ih fun s u q member => next s u q (List.mem_cons_of_mem p member)
    rw [makeChain]
    dsimp only
    split
    · exact begun
    · split
      · rename_i made
        exact next t _ p List.mem_cons_self begun made
      · split
        · rename_i chain
          rwa [chain] at before
        · rename_i chain
          rw [chain] at before
          split
          · rename_i made
            exact next _ _ p List.mem_cons_self before made
          · -- What was made above stays, whether or not the directory is there now.
            exact before
      · exact begun

theorem edited_makeChain {t : FileTree} (paths : List Path) : t.Edited (t.makeChain paths).1 :=
  makeChain_induction paths (.refl t) fun _ _ _ _ before made => .made before made

theorem edited_makeDirectories (t : FileTree) (p : Path) : t.Edited (t.makeDirectories p).1 :=
  edited_makeChain _

theorem Edited.proper {t s : FileTree} (edited : t.Edited s) (proper : t.top.Proper) :
    s.top.Proper := by
  induction edited with
  | refl => exact proper
  | made before made ih => exact proper_makeDirectory ih made
  | written before written ih => exact proper_write ih written

theorem Opened.kept {t s : FileTree} {above place : Location} {name : String} {face : Face}
    (opened : t.Opened s (above ++ [name])) (dir : t.top.seen? above = some .dir)
    (missing : t.top.seen? (above ++ [name]) = none) (seen : t.top.seen? place = some face) :
    s.top.seen? place = some face := by
  rw [opened.seen]
  split
  · rename_i inside
    rcases List.prefix_concat_iff.mp inside with rfl | higher
    · rw [missing] at seen
      cases seen
    · rwa [Node.seen_dir_above higher dir] at seen
  · exact seen

structure Grows (t s : FileTree) : Prop where
  workingDir : s.workingDir = t.workingDir
  top : t.top.Grows s.top

namespace Grows

variable {t s u : FileTree}

theorem refl (t : FileTree) : t.Grows t := ⟨rfl, fun _ face seen => ⟨face, seen, .same face⟩⟩

theorem trans (first : t.Grows s) (second : s.Grows u) : t.Grows u := by
  refine ⟨second.workingDir.trans first.workingDir, fun place face seen => ?_⟩
  obtain ⟨other, there, stays⟩ := first.top place face seen
  obtain ⟨last, found, later⟩ := second.top place other there
  exact ⟨last, found, stays.trans later⟩

theorem of_opened {above : Location} {name : String} (opened : t.Opened s (above ++ [name]))
    (dir : t.top.seen? above = some .dir) (missing : t.top.seen? (above ++ [name]) = none) :
    t.Grows s :=
  ⟨opened.workingDir, fun _ face seen => ⟨face, opened.kept dir missing seen, .same face⟩⟩

theorem of_filed {location : Location} {bytes : List UInt8} (filed : t.Filed s location bytes)
    (plain : ∀ face, t.top.seen? location = some face → ∃ old, face = .file old) : t.Grows s := by
  refine ⟨filed.workingDir, fun place face seen => ?_⟩
  rw [filed.seen]
  split
  · rename_i own
    rw [own] at seen
    obtain ⟨old, rfl⟩ := plain face seen
    exact ⟨_, rfl, .rewritten old bytes⟩
  · exact ⟨face, seen, .same face⟩

theorem home (grows : t.Grows s) (home : t.top.seen? t.workingDir = some .dir) :
    s.top.seen? s.workingDir = some .dir := by
  rw [grows.workingDir]
  exact grows.top.dir home

theorem node? (grows : t.Grows s) {p : Path} {location : Location} {x : Node}
    (found : t.node? p = .ok (location, x)) :
    ∃ y, s.node? p = .ok (location, y) ∧ x.face.Stays y.face := by
  have resolved := resolve_of_node found
  unfold resolve at resolved
  split at resolved
  · cases resolved
  · rename_i filled
    obtain ⟨y, walked, stays⟩ := walk_grown grows.top resolved
    refine ⟨y, ?_, stays⟩
    rw [FileTree.node?, resolve, if_neg filled, grows.workingDir, walked]

theorem node?_dir (grows : t.Grows s) {p : Path} {location : Location}
    {entries : List (String × Node)} (found : t.node? p = .ok (location, .dir entries)) :
    ∃ others, s.node? p = .ok (location, .dir others) := by
  obtain ⟨y, there, stays⟩ := grows.node? found
  cases y with
  | dir others => exact ⟨others, there⟩
  | file bytes => cases stays
  | link target => cases stays

end Grows

theorem grows_makeDirectory {t s : FileTree} {p : Path} (made : t.makeDirectory p = .ok s) :
    t.Grows s := by
  obtain ⟨directory, name, wanted, -, -, ⟨-, dir, missing⟩, rfl⟩ := makeDirectory_ok made
  have nothing : t.top.seen? (directory ++ [name]) = none := Option.map_eq_none_iff.mpr missing
  exact .of_opened (.put dir nothing) dir nothing

theorem filed_write {t s : FileTree} {p : Path} {bytes : List UInt8}
    (home : t.top.seen? t.workingDir = some .dir) (written : t.write p bytes = .ok s) :
    ∃ location, t.Filed s location bytes ∧
      ∀ face, t.top.seen? location = some face → ∃ old, face = .file old := by
  have start : ∀ target, t.top.at? (if p.isAbsolute then [] else t.workingDir) ≠
      some (.link target) := by
    intro target link
    have top := Node.seen_dir_above List.nil_prefix home
    split at link
    · rw [Node.seen?_of_at link] at top
      cases top
    · rw [Node.seen?_of_at link] at home
      cases home
  unfold write at written
  split at written
  · cases written
  · rename_i location x other resolved
    cases written
    have found : t.top.at? location = some x := within_of_resolve resolved
    have seen := Node.seen?_of_at found
    unfold resolve at resolved
    split at resolved
    · cases resolved
    · cases x with
      | dir entries => exact absurd rfl (other entries)
      | link target => exact absurd resolved (walk_solid start)
      | file old =>
        rcases List.eq_nil_or_concat' location with rfl | ⟨above, name, rfl⟩
        · rw [Node.seen_dir_above List.nil_prefix home] at seen
          cases seen
        · have dir : t.top.seen? above = some .dir := by
            apply Node.seen_dir_of_below
            rw [seen]
            exact Option.some_ne_none _
          have solid : t.top.seen? (above ++ [name]) ≠ some .dir := by
            rw [seen]
            intro same
            cases same
          refine ⟨above ++ [name], .put dir solid, fun face same => ?_⟩
          rw [seen] at same
          exact ⟨old, (Option.some.inj same).symm⟩
  · rename_i directory name wanted resolved
    split at written
    · cases written
    · cases written
      obtain ⟨-, dir, missing⟩ := within_of_resolve resolved
      have nothing : t.top.seen? (directory ++ [name]) = none := by
        rw [Node.seen?, missing, Option.map_none]
      have solid : t.top.seen? (directory ++ [name]) ≠ some .dir := by
        rw [nothing]
        intro same
        cases same
      refine ⟨directory ++ [name], .put dir solid, fun face same => ?_⟩
      rw [nothing] at same
      cases same
  · cases written

theorem Edited.grows {t s : FileTree} (edited : t.Edited s)
    (home : t.top.seen? t.workingDir = some .dir) : t.Grows s := by
  induction edited with
  | refl => exact .refl _
  | made before made ih => exact ih.trans (grows_makeDirectory made)
  | written before written ih =>
    obtain ⟨location, filed, plain⟩ := filed_write (ih.home home) written
    exact ih.trans (.of_filed filed plain)

end FileTree

end SourcePages
