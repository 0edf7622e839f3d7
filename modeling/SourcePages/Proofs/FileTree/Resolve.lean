import SourcePages.Proofs.FileTree.Directories

namespace SourcePages

def Place.outline : Place → Location × Face ⊕ Location × String × Bool
  | .node location n => .inl (location, n.face)
  | .vacant directory name wantsDirectory => .inr (directory, name, wantsDirectory)

def Place.location : Place → Location
  | .node location _ => location
  | .vacant directory name _ => directory ++ [name]

def Place.Within (n : Node) : Place → Prop
  | .node location x => n.at? location = some x
  | .vacant directory name _ =>
    IsName name ∧ n.seen? directory = some .dir ∧ n.at? (directory ++ [name]) = none

namespace Node

theorem isDir_eq_face (n : Node) : n.isDir = decide (n.face = .dir) := by
  cases n <;> rfl

end Node

namespace FileTree

section

variable {n : Node} {followLast wantsDirectory : Bool} {budget : Nat} {here : Location}

theorem walk_cons (name : String) (rest : List String) :
    (walk n followLast budget here wantsDirectory (name :: rest)) =
      match n.seen? here with
      | some .dir =>
        if name = ".." then walk n followLast budget here.dropLast wantsDirectory rest
        else
          match n.seen? (here ++ [name]) with
          | none =>
            if rest.isEmpty then .ok (.vacant here name wantsDirectory) else .error .notFound
          | some (.link target) =>
            if rest.isEmpty && !followLast && !wantsDirectory then
              .ok (.node (here ++ [name]) (.link target))
            else
              match budget with
              | 0 => .error .linkLoop
              | budget + 1 =>
                walk n followLast budget (if (⟨target⟩ : Path).isAbsolute then [] else here)
                  (wantsDirectory || (rest.isEmpty && (⟨target⟩ : Path).wantsDirectory))
                  ((⟨target⟩ : Path).steps ++ rest)
          | some _ => walk n followLast budget (here ++ [name]) wantsDirectory rest
      | some _ => .error .notDirectory
      | none => .error .notFound := by
  rw [walk]
  cases found : n.at? here with
  | none => simp only [Node.seen?, found, Option.map_none]
  | some x =>
    rw [Node.seen?_of_at found]
    cases x with
    | file bytes => rfl
    | link target => rfl
    | dir entries =>
      have entry : n.seen? (here ++ [name]) = (entries.lookup name).map Node.face := by
        rw [Node.seen?, Node.at?_append, found]
        simp [Node.at?, Node.child?]
      rw [entry]
      cases next : entries.lookup name with
      | none =>
        simp only [next]
        rfl
      | some y =>
        simp only [next]
        cases y <;> rfl

theorem within_of_walk {steps : List String} {place : Place}
    (named : ∀ name ∈ steps, name ≠ ".." → IsName name)
    (walked : walk n followLast budget here wantsDirectory steps = .ok place) :
    place.Within n := by
  fun_induction walk n followLast budget here wantsDirectory steps with
  | case1 | case3 | case6 | case8 | case11 | case12 => cases walked
  | case2 budget here wantsDirectory x found =>
    cases walked
    exact found
  | case4 budget here wantsDirectory rest entries dir ih =>
    exact ih (fun name member => named name (List.mem_cons_of_mem _ member)) walked
  | case5 budget here wantsDirectory name rest entries dir plain gone last =>
    cases walked
    refine ⟨named name List.mem_cons_self plain, Node.seen?_of_at dir, ?_⟩
    rw [Node.at?_append, dir]
    simp [Node.at?, Node.child?, gone]
  | case7 budget here wantsDirectory name rest entries dir plain target found last =>
    cases walked
    rw [Place.Within, Node.at?_append, dir]
    simp [Node.at?, Node.child?, found]
  | case9 here wantsDirectory name rest entries dir plain text found passed budget target ih =>
    -- The names of the link come before those that are left.
    refine ih ?_ walked
    intro other member notUp
    rcases List.mem_append.mp member with member | member
    · exact Path.name_of_mem_steps member notUp
    · exact named other (List.mem_cons_of_mem _ member) notUp
  | case10 budget here wantsDirectory name rest entries dir plain x solid found ih =>
    exact ih (fun other member => named other (List.mem_cons_of_mem _ member)) walked

theorem outline_walk_nil : (walk n followLast budget here wantsDirectory []).map Place.outline =
    match n.seen? here with
    | some face =>
      if wantsDirectory && face ≠ .dir then .error .notDirectory else .ok (.inl (here, face))
    | none => .error .notFound := by
  rw [walk]
  cases found : n.at? here with
  | none =>
    simp only [Node.seen?, found, Option.map_none]
    rfl
  | some x =>
    simp only [Node.seen?_of_at found, x.isDir_eq_face, ← decide_not]
    split <;> rfl

/-- A walk goes the same way in trees that look alike. -/
theorem walk_alike {a b : Node} (alike : a.Alike b) (followLast : Bool) (budget : Nat)
    (here : Location) (wantsDirectory : Bool) (steps : List String) :
    (walk a followLast budget here wantsDirectory steps).map Place.outline =
      (walk b followLast budget here wantsDirectory steps).map Place.outline := by
  match steps with
  | [] => rw [outline_walk_nil, outline_walk_nil, alike here]
  | name :: rest =>
    rw [walk_cons, walk_cons, ← alike here, ← alike (here ++ [name])]
    split
    · split
      · exact walk_alike alike followLast budget _ wantsDirectory rest
      · split
        · rfl
        · split
          · rfl
          · cases budget with
            | zero => rfl
            | succ budget => exact walk_alike alike followLast budget _ _ _
        · exact walk_alike alike followLast budget _ wantsDirectory rest
    · rfl
    · rfl
termination_by (budget, steps.length)

end

section

variable {s t : FileTree} {p : Path} {location : Location} {n : Node}

theorem resolve_of_node (found : t.node? p = .ok (location, n)) :
    t.resolve true p = .ok (.node location n) := by
  unfold node? at found
  split at found
  · rename_i resolved
    cases found
    exact resolved
  · cases found
  · cases found

theorem within_of_resolve {followLast : Bool} {place : Place}
    (resolved : t.resolve followLast p = .ok place) : place.Within t.top := by
  unfold resolve at resolved
  split at resolved
  · cases resolved
  · exact within_of_walk (fun name => Path.name_of_mem_steps) resolved

theorem makeDirectory_ok (made : t.makeDirectory p = .ok s) : ∃ directory name wanted,
    p.text ≠ "" ∧
    walk t.top false linkLimit (t.start p) false p.steps = .ok (.vacant directory name wanted) ∧
    (Place.vacant directory name wanted).Within t.top ∧
    s = t.put (directory ++ [name]) (.dir []) := by
  unfold makeDirectory at made
  split at made
  · cases made
  · rename_i filled
    split at made
    · split at made <;> cases made
    · split at made
      · cases made
      · rename_i directory name wanted walked
        have within := within_of_walk (fun name => Path.name_of_mem_steps) walked
        cases made
        exact ⟨directory, name, wanted, filled, walked, within, rfl⟩
      · cases made

theorem at?_of_node (found : t.node? p = .ok (location, n)) : t.top.at? location = some n :=
  within_of_resolve (resolve_of_node found)

theorem node_of_canonical {q : Path} (path : t.canonical p = .ok q) :
    ∃ location n, t.node? p = .ok (location, n) ∧ q = location.path := by
  unfold canonical at path
  cases found : t.node? p with
  | error e =>
    rw [found] at path
    cases path
  | ok place =>
    rw [found] at path
    exact ⟨place.1, place.2, rfl, (Except.ok.inj path).symm⟩

theorem outline_node (t : FileTree) (p : Path) :
    (t.node? p).map (fun found => (found.1, found.2.face)) =
      match (t.resolve true p).map Place.outline with
      | .ok (.inl found) => .ok found
      | .ok (.inr _) => .error .notFound
      | .error e => .error e := by
  unfold node?
  cases t.resolve true p with
  | error e => rfl
  | ok place => cases place <;> rfl

theorem node?_alike (alike : s.top.Alike t.top) (same : s.workingDir = t.workingDir) (p : Path) :
    (s.node? p).map (fun found => (found.1, found.2.face)) =
      (t.node? p).map fun found => (found.1, found.2.face) := by
  have resolved : (s.resolve true p).map Place.outline = (t.resolve true p).map Place.outline := by
    unfold resolve
    split
    · rfl
    · rw [same]
      exact walk_alike alike _ _ _ _ _
  rw [outline_node, outline_node, resolved]

theorem canonical_alike (alike : s.top.Alike t.top) (same : s.workingDir = t.workingDir)
    (p : Path) : s.canonical p = t.canonical p := by
  have path : ∀ u : FileTree, u.canonical p =
      ((u.node? p).map fun found => (found.1, found.2.face)).map fun found => found.1.path := by
    intro u
    rw [canonical]
    cases u.node? p <;> rfl
  rw [path, path, node?_alike alike same]

theorem exists_rooted_of_alike (alike : s.top.Alike t.top) (same : s.workingDir = t.workingDir)
    {entries : List (String × Node)} (found : t.node? p = .ok (location, .dir entries)) :
    ∃ others, s.node? p = .ok (location, .dir others) := by
  have alikeNode := node?_alike alike same p
  rw [found] at alikeNode
  cases there : s.node? p with
  | error e =>
    rw [there] at alikeNode
    cases alikeNode
  | ok place =>
    rw [there] at alikeNode
    obtain ⟨elsewhere, n⟩ := place
    obtain ⟨rfl, face⟩ := Prod.mk.inj (Except.ok.inj alikeNode)
    obtain ⟨others, rfl⟩ := Node.eq_dir_of_face face
    exact ⟨others, rfl⟩

end

end FileTree

end SourcePages
