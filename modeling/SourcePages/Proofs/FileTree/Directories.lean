import Mathlib.Data.List.Basic
import SourcePages.Proofs.FileTree.Walk
import SourcePages.Proofs.Path.Parent

namespace SourcePages

theorem setEntry_self {entries : List (String × Node)} {name : String} {node : Node}
    (found : entries.lookup name = some node) : setEntry name node entries = entries := by
  induction entries with
  | nil => cases found
  | cons entry rest ih =>
    obtain ⟨key, old⟩ := entry
    rw [lookup_entry] at found
    rw [setEntry]
    split
    · rename_i same
      rw [if_pos same.symm] at found
      rw [same, Option.some.inj found]
    · rename_i other
      rw [if_neg fun same => other same.symm] at found
      rw [ih found]

namespace Node

theorem put_self {n x : Node} {location : Location} (found : n.at? location = some x) :
    n.put x location = n := by
  induction location generalizing n with
  | nil => exact (Option.some.inj found).symm
  | cons name rest ih =>
    cases n with
    | file bytes => rfl
    | link target => rfl
    | dir entries =>
      obtain ⟨child, entry, further⟩ := Option.bind_eq_some_iff.mp found
      have lookup : entries.lookup name = some child := entry
      rw [put_dir_cons, lookup]
      simp only [ih further, setEntry_self lookup]

def Blocked (n : Node) (location : Location) : Prop :=
  ∃ above bytes, above <+: location ∧ n.seen? above = some (.file bytes)

theorem Blocked.mono {n : Node} {a b : Location} (h : n.Blocked a) (inside : a <+: b) :
    n.Blocked b := by
  obtain ⟨above, bytes, before, file⟩ := h
  exact ⟨above, bytes, before.trans inside, file⟩

theorem not_blocked_of_dir {n : Node} {location : Location} (dir : n.seen? location = some .dir) :
    ¬ n.Blocked location := by
  rintro ⟨above, bytes, before, file⟩
  rw [seen_dir_above before dir] at file
  cases file

theorem LinkFree.cases {n : Node} (free : n.LinkFree) (location : Location) :
    n.seen? location = none ∨ n.seen? location = some .dir ∨
      ∃ bytes, n.seen? location = some (.file bytes) := by
  cases seen : n.seen? location with
  | none => exact .inl rfl
  | some face =>
    cases face with
    | dir => exact .inr (.inl rfl)
    | file bytes => exact .inr (.inr ⟨bytes, rfl⟩)
    | link target => exact absurd seen (free location target)

theorem Blocked.split {n : Node} {here : Location} {names : List String}
    (dir : n.seen? here = some .dir) (h : n.Blocked (here ++ names)) :
    ∃ before after bytes, names = before ++ after ∧
      n.seen? (here ++ before) = some (.file bytes) := by
  obtain ⟨above, bytes, inside, file⟩ := h
  rcases List.prefix_or_prefix_of_prefix (List.prefix_append here names) inside with
    ⟨before, rfl⟩ | higher
  · obtain ⟨after, rfl⟩ := (List.prefix_append_right_inj here).mp inside
    exact ⟨before, after, bytes, rfl, file⟩
  · rw [seen_dir_above higher dir] at file
    cases file

end Node

namespace FileTree

section

variable {n : Node} {followLast wantsDirectory : Bool} {budget : Nat} {here : Location}
  {names : List String} (free : n.LinkFree) (plain : ∀ name ∈ names, name ≠ "..")

include free plain

theorem walk_found {x : Node} (found : n.at? (here ++ names) = some x) :
    walk n followLast budget here wantsDirectory names =
      if wantsDirectory && !x.isDir then .error .notDirectory
      else .ok (.node (here ++ names) x) := by
  have walked : walk n followLast budget here wantsDirectory (names ++ []) =
    walk n followLast budget (here ++ names) wantsDirectory [] := walk_names free plain found []
  rw [List.append_nil] at walked
  rw [walked, walk_nil found]

theorem walk_stopped (dir : n.seen? here = some .dir) (blocked : n.Blocked (here ++ names))
    (last : String) :
    walk n followLast budget here wantsDirectory (names ++ [last]) = .error .notDirectory := by
  obtain ⟨before, after, bytes, rfl, file⟩ := blocked.split dir
  have plainBefore : ∀ name ∈ before, name ≠ ".." :=
    fun name member => plain name (List.mem_append_left _ member)
  have found := Node.at?_of_seen_file file
  rw [List.append_assoc, walk_names free plainBefore found]
  cases after with
  | nil => exact walk_blocked found last []
  | cons name rest => exact walk_blocked found name (rest ++ [last])

theorem walk_lost (dir : n.seen? here = some .dir) (clear : ¬ n.Blocked (here ++ names))
    (missing : n.seen? (here ++ names) = none) (last : String) :
    walk n followLast budget here wantsDirectory (names ++ [last]) = .error .notFound := by
  obtain ⟨entries, start⟩ := Node.at?_of_seen_dir dir
  obtain ⟨before, name, after, x, rfl, found, gone⟩ :=
    Node.exists_frontier start (Node.at?_of_seen_none missing)
  have plainBefore : ∀ name ∈ before, name ≠ ".." :=
    fun name member => plain name (List.mem_append_left _ member)
  have plainName : name ≠ ".." := plain name (by simp)
  rw [List.append_assoc, walk_names free plainBefore found]
  cases x with
  | dir inside =>
    rw [List.cons_append, walk_missing found plainName (Node.lookup_of_at found gone)]
    simp
  | file bytes =>
    have above : here ++ before <+: here ++ (before ++ name :: after) := by
      rw [← List.append_assoc]
      exact List.prefix_append _ _
    exact absurd ⟨_, bytes, above, Node.seen?_of_at found⟩ clear
  | link target => exact absurd found free.not_link

theorem walk_vacant (dir : n.seen? (here ++ names) = some .dir) {last : String}
    (plainLast : last ≠ "..") (missing : n.seen? (here ++ names ++ [last]) = none) :
    walk n followLast budget here wantsDirectory (names ++ [last]) =
      .ok (.vacant (here ++ names) last wantsDirectory) := by
  obtain ⟨entries, found⟩ := Node.at?_of_seen_dir dir
  have gone := Node.lookup_of_at found (Node.at?_of_seen_none missing)
  rw [walk_names free plain found, walk_missing found plainLast gone]
  rfl

end

def start (t : FileTree) (p : Path) : Location := if p.isAbsolute then [] else t.workingDir

/-- Whether a path passes directories down to a base, and is spelled with proper names behind it. -/
structure Leads (t : FileTree) (p : Path) (base : Location) (names : List String) : Prop where
  passes : ∃ front, p.steps = front ++ names ∧ t.top.Passes (t.start p) front base
  proper : ∀ name ∈ names, IsName name
  ends : ∀ before last, names = before ++ [last] → p.EndsIn last

theorem start_eq_of_anchor {t : FileTree} {p q : Path} (same : p.anchor = q.anchor) :
    t.start p = t.start q := by
  simp [start, Path.isAbsolute_eq, same]

namespace Leads

variable {t : FileTree} {p : Path} {base : Location} {names before : List String} {last : String}

theorem seen_base (h : t.Leads p base names) : t.top.seen? base = some .dir := by
  obtain ⟨front, -, passes⟩ := h.passes
  exact passes.seen_dir_end

theorem plain (h : t.Leads p base names) : ∀ name ∈ names, name ≠ ".." :=
  fun name member => (h.proper name member).not_up

theorem mono {s : FileTree} (h : t.Leads p base names) (same : s.workingDir = t.workingDir)
    (grown : ∀ location, t.top.seen? location = some .dir → s.top.seen? location = some .dir) :
    s.Leads p base names := by
  obtain ⟨front, steps, passes⟩ := h.passes
  refine ⟨⟨front, steps, ?_⟩, h.proper, h.ends⟩
  rw [start, same]
  exact passes.mono grown

theorem passes_there (h : t.Leads p base names) (dir : t.top.seen? (base ++ names) = some .dir) :
    t.top.Passes (t.start p) p.steps (base ++ names) := by
  obtain ⟨front, steps, passes⟩ := h.passes
  rw [steps]
  exact passes.append (Node.passes_names h.plain dir)

theorem parent (h : t.Leads p base (before ++ [last])) :
    ∃ q, p.parent? = some q ∧ t.Leads q base before := by
  obtain ⟨front, steps, passes⟩ := h.passes
  rw [← List.append_assoc] at steps
  obtain ⟨q, parent, anchor, stepsCut, ends⟩ := Path.exists_parent steps
  refine ⟨q, parent, ⟨front, stepsCut, ?_⟩, ?_, ?_⟩
  · rwa [start_eq_of_anchor anchor]
  · exact fun name member => h.proper name (List.mem_append_left _ member)
  · rintro others name rfl
    exact ends (front ++ others) name (List.append_assoc _ _ _).symm

theorem proper_before (h : t.Leads p base (before ++ [last])) : ∀ name ∈ before, name ≠ ".." :=
  fun name member => h.plain name (List.mem_append_left _ member)

theorem proper_last (h : t.Leads p base (before ++ [last])) : IsName last :=
  h.proper last (by simp)

theorem filled (h : t.Leads p base (before ++ [last])) : p.text ≠ "" := by
  intro empty
  obtain ⟨front, steps, -⟩ := h.passes
  have nothing : p.steps = [] := by
    rw [Path.steps_eq_segments, empty]
    decide
  rw [nothing] at steps
  simp at steps

theorem walk_eq (h : t.Leads p base names) (followLast wantsDirectory : Bool) :
    walk t.top followLast linkLimit (t.start p) wantsDirectory p.steps =
      walk t.top followLast linkLimit base wantsDirectory names := by
  obtain ⟨front, steps, passes⟩ := h.passes
  rw [steps, walk_passes passes]

theorem resolve_eq (h : t.Leads p base (before ++ [last])) (followLast : Bool) :
    t.resolve followLast p = walk t.top followLast linkLimit base false (before ++ [last]) := by
  have wants := (h.ends before last rfl).wantsDirectory h.proper_last.named
  rw [resolve, if_neg h.filled, wants]
  exact h.walk_eq followLast false

theorem not_endsInDots (h : t.Leads p base (before ++ [last])) : endsInDots p = false := by
  have ends := (h.ends before last rfl).endsInDots h.proper_last.named
  simp [ends, h.proper_last.not_up]

theorem walk_start (h : t.Leads p base (before ++ [last])) :
    walk t.top false linkLimit (if p.isAbsolute then [] else t.workingDir) false p.steps =
      walk t.top false linkLimit base false (before ++ [last]) := by
  have walked := h.walk_eq false false
  rwa [start] at walked

theorem makeDirectory_found (h : t.Leads p base (before ++ [last])) (free : t.top.LinkFree)
    {face : Face} (seen : t.top.seen? (base ++ (before ++ [last])) = some face) :
    t.makeDirectory p = .error .exists := by
  obtain ⟨x, found, -⟩ := Option.map_eq_some_iff.mp seen
  have walked := h.walk_start
  rw [walk_found free h.plain found] at walked
  simp only [makeDirectory, h.filled, h.not_endsInDots, walked, if_false, Bool.false_eq_true,
    Bool.false_and]

theorem makeDirectory_stopped (h : t.Leads p base (before ++ [last])) (free : t.top.LinkFree)
    (blocked : t.top.Blocked (base ++ before)) : t.makeDirectory p = .error .notDirectory := by
  have walked := h.walk_start
  rw [walk_stopped free h.proper_before h.seen_base blocked] at walked
  simp only [makeDirectory, h.filled, h.not_endsInDots, walked, if_false, Bool.false_eq_true]

theorem makeDirectory_lost (h : t.Leads p base (before ++ [last])) (free : t.top.LinkFree)
    (clear : ¬ t.top.Blocked (base ++ before)) (missing : t.top.seen? (base ++ before) = none) :
    t.makeDirectory p = .error .notFound := by
  have walked := h.walk_start
  rw [walk_lost free h.proper_before h.seen_base clear missing] at walked
  simp only [makeDirectory, h.filled, h.not_endsInDots, walked, if_false, Bool.false_eq_true]

theorem makeDirectory_vacant (h : t.Leads p base (before ++ [last])) (free : t.top.LinkFree)
    (dir : t.top.seen? (base ++ before) = some .dir)
    (missing : t.top.seen? (base ++ before ++ [last]) = none) :
    t.makeDirectory p = .ok (t.put (base ++ before ++ [last]) (.dir [])) := by
  have walked := h.walk_start
  rw [walk_vacant free h.proper_before dir h.proper_last.not_up missing] at walked
  simp only [makeDirectory, h.filled, h.not_endsInDots, walked, if_false, Bool.false_eq_true]

theorem node?_found (h : t.Leads p base (before ++ [last])) (free : t.top.LinkFree) {x : Node}
    (found : t.top.at? (base ++ (before ++ [last])) = some x) :
    t.node? p = .ok (base ++ (before ++ [last]), x) := by
  rw [node?, h.resolve_eq, walk_found free h.plain found]
  rfl

theorem node?_stopped (h : t.Leads p base (before ++ [last])) (free : t.top.LinkFree)
    (blocked : t.top.Blocked (base ++ before)) : t.node? p = .error .notDirectory := by
  rw [node?, h.resolve_eq, walk_stopped free h.proper_before h.seen_base blocked]

theorem node?_missing (h : t.Leads p base (before ++ [last])) (free : t.top.LinkFree)
    (clear : ¬ t.top.Blocked (base ++ before))
    (missing : t.top.seen? (base ++ (before ++ [last])) = none) :
    t.node? p = .error .notFound := by
  rw [node?, h.resolve_eq]
  rcases free.cases (base ++ before) with lost | dir | ⟨bytes, file⟩
  · rw [walk_lost free h.proper_before h.seen_base clear lost]
  · rw [walk_vacant free h.proper_before dir h.proper_last.not_up (by simpa using missing)]
  · exact absurd ⟨_, bytes, List.prefix_rfl, file⟩ clear

theorem hasDirectory_found (h : t.Leads p base (before ++ [last])) (free : t.top.LinkFree)
    {face : Face} (seen : t.top.seen? (base ++ (before ++ [last])) = some face) :
    t.hasDirectory p = decide (face = .dir) := by
  obtain ⟨x, found, rfl⟩ := Option.map_eq_some_iff.mp seen
  rw [hasDirectory, h.node?_found free found]
  cases x <;> simp [Node.isDir, Node.face]

theorem hasDirectory_stopped (h : t.Leads p base (before ++ [last])) (free : t.top.LinkFree)
    (blocked : t.top.Blocked (base ++ before)) : t.hasDirectory p = false := by
  rw [hasDirectory, h.node?_stopped free blocked]

theorem read_eq (h : t.Leads p base (before ++ [last])) (free : t.top.LinkFree)
    {bytes : List UInt8} (file : t.top.seen? (base ++ (before ++ [last])) = some (.file bytes)) :
    t.read p = .ok bytes := by
  rw [read, h.node?_found free (Node.at?_of_seen_file file)]

theorem write_eq (h : t.Leads p base (before ++ [last])) (free : t.top.LinkFree)
    (dir : t.top.seen? (base ++ before) = some .dir)
    (other : t.top.seen? (base ++ before ++ [last]) ≠ some .dir) (bytes : List UInt8) :
    t.write p bytes = .ok (t.put (base ++ before ++ [last]) (.file bytes)) := by
  rw [write, h.resolve_eq]
  rw [List.append_assoc] at other ⊢
  cases found : t.top.at? (base ++ (before ++ [last])) with
  | some x =>
    rw [walk_found free h.plain found]
    cases x with
    | file old => rfl
    | dir entries => exact absurd (Node.seen?_of_at found) other
    | link target => exact absurd found free.not_link
  | none =>
    have missing : t.top.seen? (base ++ before ++ [last]) = none := by
      rw [List.append_assoc, Node.seen?, found, Option.map_none]
    rw [walk_vacant free h.proper_before dir h.proper_last.not_up missing, ← List.append_assoc]
    rfl

theorem write_refused (h : t.Leads p base (before ++ [last])) (free : t.top.LinkFree)
    (dir : t.top.seen? (base ++ (before ++ [last])) = some .dir) (bytes : List UInt8) :
    t.write p bytes = .error .isDirectory := by
  obtain ⟨entries, found⟩ := Node.at?_of_seen_dir dir
  rw [write, h.resolve_eq, walk_found free h.plain found]
  rfl

end Leads

section

variable {t : FileTree} {p : Path} {there : Location} (filled : p.text ≠ "")
  (passes : t.top.Passes (t.start p) p.steps there)

include filled passes

theorem resolve_passes (followLast : Bool) :
    ∃ entries, t.top.at? there = some (.dir entries) ∧
      t.resolve followLast p = .ok (.node there (.dir entries)) := by
  obtain ⟨entries, found⟩ := Node.at?_of_seen_dir passes.seen_dir_end
  have walked : walk t.top followLast linkLimit (t.start p) p.wantsDirectory (p.steps ++ []) =
    walk t.top followLast linkLimit there p.wantsDirectory [] := walk_passes passes []
  rw [List.append_nil, walk_nil found, start] at walked
  refine ⟨entries, found, ?_⟩
  rw [resolve, if_neg filled, walked]
  simp [Node.isDir]

theorem node?_passes : ∃ entries, t.node? p = .ok (there, .dir entries) := by
  obtain ⟨entries, -, resolved⟩ := resolve_passes filled passes true
  exact ⟨entries, by rw [node?, resolved]⟩

theorem canonical_passes : t.canonical p = .ok there.path := by
  obtain ⟨entries, found⟩ := node?_passes filled passes
  rw [canonical, found]
  rfl

theorem makeDirectory_passes : t.makeDirectory p = .error .exists := by
  rw [makeDirectory, if_neg filled]
  split
  · obtain ⟨entries, found⟩ := node?_passes filled passes
    rw [found]
  · obtain ⟨entries, found⟩ := Node.at?_of_seen_dir passes.seen_dir_end
    have walked : walk t.top false linkLimit (t.start p) false (p.steps ++ []) =
      walk t.top false linkLimit there false [] := walk_passes passes []
    rw [List.append_nil, walk_nil found, start] at walked
    rw [walked]
    rfl

theorem hasDirectory_passes : t.hasDirectory p = true := by
  obtain ⟨entries, found⟩ := node?_passes filled passes
  rw [hasDirectory, found]
  rfl

theorem write_passes (bytes : List UInt8) : t.write p bytes = .error .isDirectory := by
  obtain ⟨entries, -, resolved⟩ := resolve_passes filled passes true
  rw [write, resolved]

end

/-- What changes when directories are made down to a location. -/
structure Opened (t s : FileTree) (directory : Location) : Prop where
  workingDir : s.workingDir = t.workingDir
  seen : ∀ place, s.top.seen? place =
    if place <+: directory then some .dir else t.top.seen? place

/-- What changes when a file is written. -/
structure Filed (t s : FileTree) (location : Location) (bytes : List UInt8) : Prop where
  workingDir : s.workingDir = t.workingDir
  seen : ∀ place, s.top.seen? place =
    if place = location then some (.file bytes) else t.top.seen? place

namespace Opened

variable {t s u : FileTree} {directory : Location}

theorem linkFree (h : t.Opened s directory) (free : t.top.LinkFree) : s.top.LinkFree := by
  intro place target link
  rw [h.seen] at link
  split at link
  · cases link
  · exact free place target link

theorem grown (h : t.Opened s directory) {place : Location} (dir : t.top.seen? place = some .dir) :
    s.top.seen? place = some .dir := by
  rw [h.seen, dir]
  exact ite_self _

theorem there (h : t.Opened s directory) : s.top.seen? directory = some .dir := by
  rw [h.seen, if_pos List.prefix_rfl]

theorem refl (dir : t.top.seen? directory = some .dir) : t.Opened t directory := by
  refine ⟨rfl, fun place => ?_⟩
  split
  · rename_i inside
    exact Node.seen_dir_above inside dir
  · rfl

theorem trans {further : Location} (h : t.Opened s directory) (inside : directory <+: further)
    (next : s.Opened u further) : t.Opened u further := by
  refine ⟨next.workingDir.trans h.workingDir, fun place => ?_⟩
  rw [next.seen]
  split
  · rfl
  · rename_i outside
    rw [h.seen, if_neg fun above => outside (above.trans inside)]

theorem file_iff (h : t.Opened s directory) (clear : ¬ t.top.Blocked directory) {place : Location}
    {bytes : List UInt8} :
    s.top.seen? place = some (.file bytes) ↔ t.top.seen? place = some (.file bytes) := by
  rw [h.seen]
  split
  · rename_i above
    constructor
    · intro dir
      cases dir
    · intro file
      exact absurd ⟨place, bytes, above, file⟩ clear
  · rfl

theorem put {above : Location} {name : String} (dir : t.top.seen? above = some .dir)
    (missing : t.top.seen? (above ++ [name]) = none) :
    t.Opened (t.put (above ++ [name]) (.dir [])) (above ++ [name]) := by
  refine ⟨rfl, fun place => ?_⟩
  have room : t.top.HasRoom (above ++ [name]) := by
    right
    rwa [List.dropLast_concat]
  by_cases below : above ++ [name] <+: place
  · obtain ⟨rest, rfl⟩ := below
    rw [FileTree.put, Node.seen?_put_append _ _ room]
    cases rest with
    | nil => rw [List.append_nil, if_pos List.prefix_rfl]; rfl
    | cons next more =>
      have outside : ¬ above ++ [name] ++ next :: more <+: above ++ [name] := by
        intro inside
        have length := inside.length_le
        simp at length
      have nothing : t.top.seen? (above ++ [name] ++ next :: more) = none := by
        by_contra found
        rw [Node.seen_dir_of_below found] at missing
        cases missing
      rw [if_neg outside, nothing]
      rfl
  · rw [FileTree.put, Node.seen?_put_of_outside _ below]
    split
    · rename_i inside
      rcases List.prefix_concat_iff.mp inside with same | higher
      · exact absurd (same ▸ List.prefix_rfl) below
      · exact Node.seen_dir_above higher dir
    · rfl

end Opened

namespace Filed

variable {t s : FileTree} {location : Location} {bytes : List UInt8}

theorem linkFree (h : t.Filed s location bytes) (free : t.top.LinkFree) : s.top.LinkFree := by
  intro place target link
  rw [h.seen] at link
  split at link
  · cases link
  · exact free place target link

theorem put {above : Location} {name : String} (dir : t.top.seen? above = some .dir)
    (other : t.top.seen? (above ++ [name]) ≠ some .dir) :
    t.Filed (t.put (above ++ [name]) (.file bytes)) (above ++ [name]) bytes := by
  refine ⟨rfl, fun place => ?_⟩
  have room : t.top.HasRoom (above ++ [name]) := by
    right
    rwa [List.dropLast_concat]
  by_cases below : above ++ [name] <+: place
  · obtain ⟨rest, rfl⟩ := below
    rw [FileTree.put, Node.seen?_put_append _ _ room]
    cases rest with
    | nil => rw [List.append_nil, if_pos rfl]; rfl
    | cons next more =>
      have nothing : t.top.seen? (above ++ [name] ++ next :: more) = none := by
        by_contra found
        exact other (Node.seen_dir_of_below found)
      rw [if_neg (by simp), nothing]
      rfl
  · have outside : place ≠ above ++ [name] := by
      rintro rfl
      exact below List.prefix_rfl
    rw [FileTree.put, Node.seen?_put_of_outside _ below, if_neg outside]

end Filed

def stopFault (t : FileTree) (location : Location) : IoFault :=
  match t.top.seen? location with
  | some (.file _) => .exists
  | _ => .notDirectory

theorem stopFault_of_file {t : FileTree} {location : Location}
    (file : ∃ bytes, t.top.seen? location = some (.file bytes)) : t.stopFault location = .exists := by
  obtain ⟨bytes, file⟩ := file
  simp only [stopFault, file]

theorem stopFault_of_not_file {t : FileTree} {location : Location}
    (other : ¬ ∃ bytes, t.top.seen? location = some (.file bytes)) :
    t.stopFault location = .notDirectory := by
  unfold stopFault
  split
  · rename_i bytes file
    exact absurd ⟨bytes, file⟩ other
  · rfl

theorem components_ne_nil {p : Path} (filled : p.text ≠ "") : p.components.isEmpty = false := by
  rw [Path.components_eq]
  by_cases relative : p.anchor = []
  · have named := Path.steps_ne_nil filled relative
    simp [named]
  · rcases p.split_text with ⟨-, anchor⟩ | ⟨-, anchor⟩ | ⟨more, -, -, anchor⟩
    · exact absurd anchor relative
    · simp [Path.anchorComponents, anchor]
    · simp [Path.anchorComponents, anchor]

theorem makeChain_there {t : FileTree} {p : Path} {there : Location}
    (passes : t.top.Passes (t.start p) p.steps there) (above : List Path) :
    t.makeChain (p :: above) = (t, .ok ()) := by
  rw [makeChain]
  by_cases filled : p.text = ""
  · have nothing : p.components.isEmpty = true := by
      cases p
      cases filled
      decide
    rw [if_pos nothing]
  · simp only [components_ne_nil filled, makeDirectory_passes filled passes,
      hasDirectory_passes filled passes]
    rfl

theorem makeDirectories_there {t : FileTree} {p : Path} {there : Location}
    (passes : t.top.Passes (t.start p) p.steps there) : t.makeDirectories p = (t, .ok ()) :=
  makeChain_there passes _

theorem Leads.makeDirectory_next {t s : FileTree} {p : Path} {base before : Location}
    {last : String} (h : t.Leads p base (before ++ [last])) (free : t.top.LinkFree)
    (opened : t.Opened s (base ++ before))
    (missing : t.top.seen? (base ++ before ++ [last]) = none) :
    ∃ u, s.makeDirectory p = .ok u ∧ t.Opened u (base ++ before ++ [last]) := by
  have still : s.top.seen? (base ++ before ++ [last]) = none := by
    rw [opened.seen, if_neg (Location.not_concat_inside _ _), missing]
  have leads := h.mono opened.workingDir fun _ => opened.grown
  refine ⟨_, leads.makeDirectory_vacant (opened.linkFree free) opened.there still, ?_⟩
  exact opened.trans (List.prefix_append _ _) (.put opened.there still)

theorem makeChain_clear {t : FileTree} {p : Path} {base : Location} {names : List String}
    (free : t.top.LinkFree) (h : t.Leads p base names) (clear : ¬ t.top.Blocked (base ++ names))
    {k : Nat} (fuel : names.length < k) :
    ∃ s, t.makeChain (chain k p) = (s, .ok ()) ∧ t.Opened s (base ++ names) := by
  -- The names grow at their end, as the path loses its last one with each step of the chain.
  induction names using List.reverseRecOn generalizing p k with
  | nil =>
    rw [List.append_nil]
    refine ⟨t, ?_, .refl h.seen_base⟩
    cases k with
    | zero => cases fuel
    | succ k =>
      have passes := h.passes_there (by rw [List.append_nil]; exact h.seen_base)
      exact makeChain_there passes _
  | append_singleton before last ih =>
    cases k with
    | zero => cases fuel
    | succ k =>
      obtain ⟨q, parent, above⟩ := h.parent
      have clearAbove : ¬ t.top.Blocked (base ++ before) := fun blocked =>
        clear (blocked.mono (by rw [← List.append_assoc]; exact List.prefix_append _ _))
      have shorter : before.length < k := by simpa using fuel
      rw [chain, parent, makeChain, components_ne_nil h.filled]
      rcases free.cases (base ++ (before ++ [last])) with missing | dir | ⟨bytes, file⟩
      · rw [← List.append_assoc] at missing ⊢
        -- Only where the directory above is missing as well does the chain go on upwards.
        rcases free.cases (base ++ before) with lost | dir | ⟨bytes, file⟩
        · obtain ⟨s, made, opened⟩ := ih above clearAbove shorter
          obtain ⟨u, next, reached⟩ := h.makeDirectory_next free opened missing
          simp only [h.makeDirectory_lost free clearAbove lost, made, next]
          exact ⟨u, rfl, reached⟩
        · simp only [h.makeDirectory_vacant free dir missing]
          exact ⟨_, rfl, .put dir missing⟩
        · exact absurd ⟨_, bytes, List.prefix_rfl, file⟩ clearAbove
      · simp only [h.makeDirectory_found free dir, h.hasDirectory_found free dir]
        exact ⟨t, rfl, .refl dir⟩
      · exact absurd ⟨_, bytes, List.prefix_rfl, file⟩ clear

theorem makeChain_stopped {t : FileTree} {p : Path} {base : Location} {names : List String}
    (free : t.top.LinkFree) (h : t.Leads p base names) (blocked : t.top.Blocked (base ++ names))
    (above : List Path) :
    t.makeChain (p :: above) = (t, .error (t.stopFault (base ++ names))) := by
  rcases List.eq_nil_or_concat' names with rfl | ⟨before, last, rfl⟩
  · rw [List.append_nil] at blocked
    exact absurd blocked (Node.not_blocked_of_dir h.seen_base)
  · rw [makeChain, components_ne_nil h.filled]
    by_cases file : ∃ bytes, t.top.seen? (base ++ (before ++ [last])) = some (.file bytes)
    · rw [stopFault_of_file file]
      obtain ⟨bytes, file⟩ := file
      simp only [h.makeDirectory_found free file, h.hasDirectory_found free file]
      rfl
    · have stopped : t.top.Blocked (base ++ before) := by
        obtain ⟨above, bytes, inside, there⟩ := blocked
        rw [← List.append_assoc] at inside
        rcases List.prefix_concat_iff.mp inside with rfl | higher
        · rw [List.append_assoc] at there
          exact absurd ⟨bytes, there⟩ file
        · exact ⟨above, bytes, higher, there⟩
      rw [stopFault_of_not_file file]
      simp only [h.makeDirectory_stopped free stopped, h.hasDirectory_stopped free stopped]
      rfl

theorem Leads.length_le {t : FileTree} {p : Path} {base : Location} {names : List String}
    (h : t.Leads p base names) : names.length ≤ p.components.length := by
  obtain ⟨front, steps, -⟩ := h.passes
  rw [Path.components_eq, steps]
  simp only [List.length_append, List.length_map]
  omega

theorem makeDirectories_clear {t : FileTree} {p : Path} {base : Location} {names : List String}
    (free : t.top.LinkFree) (h : t.Leads p base names) (clear : ¬ t.top.Blocked (base ++ names)) :
    ∃ s, t.makeDirectories p = (s, .ok ()) ∧ t.Opened s (base ++ names) :=
  makeChain_clear free h clear (Nat.lt_succ_of_le h.length_le)

theorem makeDirectories_stopped {t : FileTree} {p : Path} {base : Location} {names : List String}
    (free : t.top.LinkFree) (h : t.Leads p base names) (blocked : t.top.Blocked (base ++ names)) :
    t.makeDirectories p = (t, .error (t.stopFault (base ++ names))) :=
  makeChain_stopped free h blocked _

end FileTree

end SourcePages
