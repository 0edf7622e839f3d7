import SourcePages.FileTree.Resolve
import SourcePages.FileTree.Seen

/-!
Where a path leads in a tree without symbolic links. A path that passes only directories can be cut
anywhere; behind that, the outcome depends on what is seen where the names lead.
-/

namespace SourcePages

theorem Location.not_concat_inside (above : Location) (name : String) :
    ¬ above ++ [name] <+: above := by
  intro inside
  have length := inside.length_le
  rw [List.length_append, List.length_singleton] at length
  omega

namespace Node

theorem at?_append (n : Node) (a b : Location) : n.at? (a ++ b) = (n.at? a).bind (·.at? b) := by
  induction a generalizing n with
  | nil => rfl
  | cons name rest ih =>
    simp only [List.cons_append, at?]
    cases n.child? name with
    | none => rfl
    | some child => exact ih child

theorem at?_of_seen_dir {n : Node} {location : Location} (h : n.seen? location = some .dir) :
    ∃ entries, n.at? location = some (.dir entries) := by
  obtain ⟨x, found, face⟩ := Option.map_eq_some_iff.mp h
  obtain ⟨entries, rfl⟩ := eq_dir_of_face face
  exact ⟨entries, found⟩

theorem at?_of_seen_file {n : Node} {location : Location} {bytes : List UInt8}
    (h : n.seen? location = some (.file bytes)) : n.at? location = some (.file bytes) := by
  obtain ⟨x, found, face⟩ := Option.map_eq_some_iff.mp h
  cases x with
  | file other =>
    cases face
    exact found
  | link target => cases face
  | dir entries => cases face

theorem at?_of_seen_none {n : Node} {location : Location} (h : n.seen? location = none) :
    n.at? location = none := Option.map_eq_none_iff.mp h

theorem seen?_of_at {n x : Node} {location : Location} (h : n.at? location = some x) :
    n.seen? location = some x.face := by rw [seen?, h, Option.map_some]

theorem seen_dir_of_below {n : Node} {above : Location} {name : String} {below : Location}
    (h : n.seen? (above ++ name :: below) ≠ none) : n.seen? above = some .dir := by
  cases found : n.at? above with
  | none => simp [seen?, at?_append, found] at h
  | some x =>
    rw [seen?_of_at found]
    cases x with
    | dir entries => rfl
    | file bytes => simp [seen?, at?_append, found, at?, child?] at h
    | link target => simp [seen?, at?_append, found, at?, child?] at h

theorem seen_dir_above {n : Node} {above location : Location} (h : above <+: location)
    (dir : n.seen? location = some .dir) : n.seen? above = some .dir := by
  obtain ⟨below, rfl⟩ := h
  cases below with
  | nil => rwa [List.append_nil] at dir
  | cons name below => exact seen_dir_of_below (by rw [dir]; exact Option.some_ne_none _)

theorem exists_frontier {n x : Node} {here : Location} {names : List String}
    (start : n.at? here = some x) (missing : n.at? (here ++ names) = none) :
    ∃ before name after y, names = before ++ name :: after ∧
      n.at? (here ++ before) = some y ∧ n.at? (here ++ before ++ [name]) = none := by
  induction names generalizing here x with
  | nil => rw [List.append_nil, start] at missing; cases missing
  | cons name rest ih =>
    cases next : n.at? (here ++ [name]) with
    | none => exact ⟨[], name, rest, x, rfl, by rwa [List.append_nil], by rwa [List.append_nil]⟩
    | some y =>
      obtain ⟨before, other, after, z, rfl, found, gone⟩ := ih next (by simpa using missing)
      exact ⟨name :: before, other, after, z, rfl, by simpa using found, by simpa using gone⟩

inductive Passes (n : Node) : Location → List String → Location → Prop
  | done {here : Location} (dir : n.seen? here = some .dir) : n.Passes here [] here
  | step {here there : Location} {name : String} {rest : List String}
      (dir : n.seen? here = some .dir)
      (further : n.Passes (if name = ".." then here.dropLast else here ++ [name]) rest there) :
      n.Passes here (name :: rest) there

theorem Passes.seen_dir {n : Node} {steps : List String} {here there : Location}
    (h : n.Passes here steps there) : n.seen? here = some .dir := by
  cases h with
  | done dir => exact dir
  | step dir further => exact dir

theorem Passes.seen_dir_end {n : Node} {steps : List String} {here there : Location}
    (h : n.Passes here steps there) : n.seen? there = some .dir := by
  induction h with
  | done dir => exact dir
  | step dir further ih => exact ih

theorem Passes.append {n : Node} {a b : List String} {here mid there : Location}
    (ha : n.Passes here a mid) (hb : n.Passes mid b there) : n.Passes here (a ++ b) there := by
  induction ha with
  | done dir => exact hb
  | step dir further ih => exact .step dir (ih hb)

theorem passes_names {n : Node} {names : List String} {here : Location}
    (plain : ∀ name ∈ names, name ≠ "..") (dir : n.seen? (here ++ names) = some .dir) :
    n.Passes here names (here ++ names) := by
  induction names generalizing here with
  | nil =>
    rw [List.append_nil] at dir ⊢
    exact .done dir
  | cons name rest ih =>
    have inside : n.seen? here = some .dir := seen_dir_above (List.prefix_append _ _) dir
    have later : n.Passes (here ++ [name]) rest (here ++ [name] ++ rest) :=
      ih (fun other member => plain other (List.mem_cons_of_mem _ member)) (by simpa using dir)
    refine .step inside ?_
    rw [if_neg (plain name List.mem_cons_self)]
    simpa using later

theorem Passes.mono {n m : Node} {steps : List String} {here there : Location}
    (grown : ∀ location, n.seen? location = some .dir → m.seen? location = some .dir)
    (h : n.Passes here steps there) : m.Passes here steps there := by
  induction h with
  | done dir => exact .done (grown _ dir)
  | step dir further ih => exact .step (grown _ dir) ih

theorem LinkFree.not_link {n : Node} (h : n.LinkFree) {location : Location} {target : String} :
    n.at? location ≠ some (.link target) :=
  fun found => h location target (seen?_of_at found)

theorem LinkFree.solid {n x : Node} (h : n.LinkFree) {location : Location}
    (found : n.at? location = some x) (target : String) : x ≠ .link target := by
  rintro rfl
  exact h.not_link found

theorem lookup_of_at {n : Node} {x : Option Node} {here : Location}
    {entries : List (String × Node)} {name : String} (dir : n.at? here = some (.dir entries))
    (found : n.at? (here ++ [name]) = x) : entries.lookup name = x := by
  rw [at?_append, dir] at found
  simpa [at?, child?] using found

end Node

namespace FileTree

section

variable {n : Node} {followLast wantsDirectory : Bool} {budget : Nat} {here : Location}

theorem walk_nil {x : Node} (found : n.at? here = some x) :
    walk n followLast budget here wantsDirectory [] =
      if wantsDirectory && !x.isDir then .error .notDirectory else .ok (.node here x) := by
  rw [walk]
  simp only [found]

theorem walk_blocked {bytes : List UInt8} (found : n.at? here = some (.file bytes)) (name : String)
    (rest : List String) :
    walk n followLast budget here wantsDirectory (name :: rest) = .error .notDirectory := by
  rw [walk]
  simp only [found]

theorem walk_missing {entries : List (String × Node)} (dir : n.at? here = some (.dir entries))
    {name : String} (plain : name ≠ "..") (gone : entries.lookup name = none)
    (rest : List String) :
    walk n followLast budget here wantsDirectory (name :: rest) =
      if rest.isEmpty then .ok (.vacant here name wantsDirectory) else .error .notFound := by
  rw [walk]
  simp only [dir, gone, if_neg plain]

theorem walk_up {entries : List (String × Node)} (dir : n.at? here = some (.dir entries))
    (rest : List String) :
    walk n followLast budget here wantsDirectory (".." :: rest) =
      walk n followLast budget here.dropLast wantsDirectory rest := by
  rw [walk]
  simp only [dir, if_true]

theorem walk_down {name : String} (plain : name ≠ "..") {x : Node}
    (found : n.at? (here ++ [name]) = some x) (solid : ∀ target, x ≠ .link target)
    (rest : List String) :
    walk n followLast budget here wantsDirectory (name :: rest) =
      walk n followLast budget (here ++ [name]) wantsDirectory rest := by
  have inside : n.seen? here = some .dir :=
    Node.seen_dir_of_below (by rw [Node.seen?_of_at found]; exact Option.some_ne_none _)
  obtain ⟨entries, dir⟩ := Node.at?_of_seen_dir inside
  have entry := Node.lookup_of_at dir found
  rw [walk]
  simp only [dir, entry, if_neg plain]

theorem walk_passes {steps : List String} {there : Location}
    (passes : n.Passes here steps there) (rest : List String) :
    walk n followLast budget here wantsDirectory (steps ++ rest) =
      walk n followLast budget there wantsDirectory rest := by
  induction passes with
  | done dir => rw [List.nil_append]
  | @step here there name names inside further ih =>
    obtain ⟨entries, dir⟩ := Node.at?_of_seen_dir inside
    by_cases up : name = ".."
    · subst up
      rw [List.cons_append, walk_up dir]
      exact ih
    · rw [if_neg up] at further ih
      obtain ⟨below, found⟩ := Node.at?_of_seen_dir further.seen_dir
      rw [List.cons_append, walk_down up found nofun]
      exact ih

theorem walk_names (free : n.LinkFree) {names : List String}
    (plain : ∀ name ∈ names, name ≠ "..") {x : Node} (found : n.at? (here ++ names) = some x)
    (rest : List String) :
    walk n followLast budget here wantsDirectory (names ++ rest) =
      walk n followLast budget (here ++ names) wantsDirectory rest := by
  induction names generalizing here with
  | nil => rw [List.nil_append, List.append_nil]
  | cons name names ih =>
    have below : n.at? (here ++ [name] ++ names) = some x := by simpa using found
    obtain ⟨y, next⟩ : ∃ y, n.at? (here ++ [name]) = some y := by
      rw [Node.at?_append] at below
      obtain ⟨y, next, -⟩ := Option.bind_eq_some_iff.mp below
      exact ⟨y, next⟩
    rw [List.cons_append, walk_down (plain name List.mem_cons_self) next (free.solid next),
      ih (fun other member => plain other (List.mem_cons_of_mem _ member)) below]
    simp

theorem location_of_walk {names : List String}
    (free : ∀ below target, n.at? (here ++ below) ≠ some (.link target))
    (plain : ∀ name ∈ names, name ≠ "..") {location : Location} {x : Node}
    (walked : walk n followLast budget here wantsDirectory names = .ok (.node location x)) :
    location = here ++ names := by
  induction names generalizing here with
  | nil =>
    cases found : n.at? here with
    | none => rw [walk] at walked; simp [found] at walked
    | some y =>
      rw [walk_nil found] at walked
      split at walked
      · cases walked
      · cases walked
        rw [List.append_nil]
  | cons name rest ih =>
    have notUp := plain name List.mem_cons_self
    cases found : n.at? here with
    | none => rw [walk] at walked; simp [found] at walked
    | some y =>
      cases y with
      | file bytes => rw [walk_blocked found] at walked; cases walked
      | link target => exact absurd found (List.append_nil here ▸ free [] target)
      | dir inside =>
        cases next : n.at? (here ++ [name]) with
        | none =>
          rw [walk_missing found notUp (Node.lookup_of_at found next)] at walked
          split at walked <;> cases walked
        | some z =>
          have solid : ∀ target, z ≠ .link target := by
            rintro target rfl
            exact free [name] target next
          have further : ∀ below target, n.at? (here ++ [name] ++ below) ≠ some (.link target) := by
            intro below
            rw [List.append_assoc]
            exact free _
          rw [walk_down notUp next solid] at walked
          have later := ih further
            (fun other member => plain other (List.mem_cons_of_mem _ member)) walked
          rw [later, List.append_assoc, List.singleton_append]

theorem passes_of_walk (free : n.LinkFree) {steps : List String} {there : Location}
    {entries : List (String × Node)}
    (walked : walk n followLast budget here wantsDirectory steps = .ok (.node there (.dir entries))) :
    n.Passes here steps there := by
  -- Without links, the walk goes on after a name as a walk over the names that are left.
  induction steps generalizing here with
  | nil =>
    cases found : n.at? here with
    | none => rw [walk] at walked; simp [found] at walked
    | some x =>
      rw [walk_nil found] at walked
      split at walked
      · cases walked
      · cases walked
        exact .done (Node.seen?_of_at found)
  | cons name rest ih =>
    cases found : n.at? here with
    | none => rw [walk] at walked; simp [found] at walked
    | some x =>
      cases x with
      | file bytes => rw [walk_blocked found] at walked; cases walked
      | link target => exact absurd found free.not_link
      | dir inside =>
        refine .step (Node.seen?_of_at found) ?_
        by_cases up : name = ".."
        · subst up
          rw [walk_up found] at walked
          exact ih walked
        · rw [if_neg up]
          cases next : n.at? (here ++ [name]) with
          | none =>
            rw [walk_missing found up (Node.lookup_of_at found next)] at walked
            split at walked <;> cases walked
          | some y =>
            rw [walk_down up next (free.solid next)] at walked
            exact ih walked

end

end FileTree

end SourcePages
