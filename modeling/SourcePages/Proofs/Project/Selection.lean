import Mathlib.Data.List.Sort
import SourcePages.Proofs.Project.Scan
import SourcePages.Proofs.Text.Order

namespace SourcePages

section

variable {root : Location} {names : List String} (rootProper : ∀ name ∈ root, IsName name)
  (proper : ∀ name ∈ names, IsName name) (listed : names ≠ [])

include proper listed

theorem anchor_joined : (root.path.join ⟨relativeText names⟩).anchor = ['/'] := by
  have filled : root.path.text ≠ "" := by simp [Location.path]
  rw [relativeText, Path.anchor_join filled (relative_joined proper listed), anchor_path]

include rootProper

theorem steps_below : (root.path.join ⟨relativeText names⟩).steps = root ++ names := by
  have filled : root.path.text ≠ "" := by simp [Location.path]
  rw [relativeText, Path.steps_join filled (relative_joined proper listed),
    steps_joined proper listed, steps_path rootProper]

end

def sourceAt (root : Location) (names : List String) : SourceFile :=
  ⟨root.path.join ⟨relativeText names⟩, relativeText names⟩

theorem isOutput_joined {r : ScanRules} {root : Location} {names : List String}
    (rootProper : ∀ name ∈ root, IsName name) (proper : ∀ name ∈ names, IsName name)
    (listed : names ≠ []) (top : r.root = root.path) :
    r.isOutput names = true ↔ r.outputRoot.anchor = ['/'] ∧ r.outputRoot.steps = root ++ names := by
  have place : r.pathOf names = root.path.join ⟨relativeText names⟩ := by
    simp [ScanRules.pathOf, listed, top]
  rw [ScanRules.isOutput, Path.same_iff_steps, place, anchor_joined proper listed,
    steps_below rootProper proper listed]
  exact and_congr eq_comm eq_comm

namespace Project

/-- Whether a project documents what is at some names below its root: it is no directory, none of the
directories between is that of the pages or left out, and it is selected and not left out itself. -/
structure Picks (p : Project) (t : FileTree) (root : Location) (names : List String) : Prop where
  below : names ≠ []
  there : ∃ face, t.top.seen? (root ++ names) = some face ∧ face ≠ .dir
  apart : ∀ above, above <+: names → above ≠ [] → above ≠ names →
    t.canonical p.config.outputRoot ≠ .ok (Location.path (root ++ above))
  entered : ∀ above, above <+: names → above ≠ [] → above ≠ names →
    p.filter.ignores (relativeText above) true = false
  taken : anyTakes p.selectors (relativeText names) = true
  kept : p.filter.ignores (relativeText names) false = false

theorem Picks.found {p : Project} {t : FileTree} {root : Location} {names : List String}
    (picks : p.Picks t root names) : ∃ x, t.top.at? (root ++ names) = some x := by
  obtain ⟨face, seen, -⟩ := picks.there
  obtain ⟨x, found, -⟩ := Option.map_eq_some_iff.mp seen
  exact ⟨x, found⟩

theorem Picks.named {p : Project} {t : FileTree} {root : Location} {names : List String}
    (picks : p.Picks t root names) (proper : t.top.Proper) : ∀ name ∈ names, IsName name := by
  obtain ⟨x, found⟩ := picks.found
  exact (List.forall_mem_append.mp (proper.names found)).2

theorem between_iff {below : List String} {node : Node} {face : Face}
    (there : node.seen? below = some face) (plain : face ≠ .dir) (head : String)
    (test : List String → Prop) :
    (∀ above, above <+: head :: below → above ≠ [] → above ≠ head :: below → test above) ↔
      ∀ above, above <+: below → node.seen? above = some .dir → test (head :: above) := by
  constructor
  · intro all above inside dir
    refine all _ (List.cons_prefix_cons.mpr ⟨rfl, inside⟩) (List.cons_ne_nil _ _) ?_
    intro same
    rw [(List.cons.inj same).2, there] at dir
    exact plain (Option.some.inj dir)
  · intro all above inside filled other
    obtain ⟨first, rest, rfl⟩ := List.exists_cons_of_ne_nil filled
    obtain ⟨rfl, lower⟩ := List.cons_prefix_cons.mp inside
    refine all rest lower ?_
    obtain ⟨more, rfl⟩ := lower
    cases more with
    | nil => simp at other
    | cons next more =>
      apply Node.seen_dir_of_below
      rw [there]
      exact Option.some_ne_none _

theorem files_scan {p : Project} {t : FileTree} {root : Location}
    {entries : List (String × Node)} (rooted : t.node? p.config.root = .ok (root, .dir entries)) :
    (p.scan t).files = ((p.scanRules t root.path).scanEntries [] entries).files := by
  simp [scan, rooted, Scan.append, ScanRules.scanRoot]

theorem exists_root {p : Project} {t : FileTree} {f : SourceFile} (member : f ∈ p.sources t) :
    ∃ location n, t.node? p.config.root = .ok (location, n) := by
  cases found : t.node? p.config.root with
  | ok place => exact ⟨place.1, place.2, rfl⟩
  | error fault =>
    rw [sources, sortFiles, List.mem_mergeSort, scan, found] at member
    cases member

theorem files_scan_leaf {p : Project} {t : FileTree} {location : Location} {n : Node}
    (rooted : t.node? p.config.root = .ok (location, n)) (leaf : n.isDir = false) :
    (p.scan t).files = ((p.scanRules t location.path).scanFile []).files := by
  cases n with
  | dir entries => cases leaf
  | file bytes => simp [scan, rooted, Scan.append, ScanRules.scanRoot]
  | link target => simp [scan, rooted, Scan.append, ScanRules.scanRoot]

theorem mem_sources_leaf {p : Project} {t : FileTree} {location : Location} {n : Node}
    {f : SourceFile} (rooted : t.node? p.config.root = .ok (location, n)) (leaf : n.isDir = false) :
    f ∈ p.sources t ↔ anyTakes p.selectors (relativeText []) = true ∧
      p.filter.ignores (relativeText []) false = false ∧ f = ⟨location.path, relativeText []⟩ := by
  rw [sources, sortFiles, List.mem_mergeSort, files_scan_leaf rooted leaf, ScanRules.mem_scanFile]
  rfl

theorem source_of_leaf {p : Project} {t : FileTree} {location : Location} {n : Node}
    {f : SourceFile} (rooted : t.node? p.config.root = .ok (location, n)) (leaf : n.isDir = false)
    (member : f ∈ p.sources t) : f = ⟨location.path, relativeText []⟩ :=
  ((mem_sources_leaf rooted leaf).mp member).2.2

section

variable {p : Project} {t : FileTree} {root : Location} {entries : List (String × Node)}
  {f : SourceFile} (proper : t.top.Proper)

include proper

/-- The scan leaves out the directory of the pages by where it really is. Where its path leads
nowhere, no directory that is there has that path. -/
theorem isOutput_iff {names : List String} (listed : names ≠ [])
    (dir : t.top.seen? (root ++ names) = some .dir) :
    (p.scanRules t root.path).isOutput names = true ↔
      t.canonical p.config.outputRoot = .ok (Location.path (root ++ names)) := by
  obtain ⟨inside, found⟩ := Node.at?_of_seen_dir dir
  have whole := proper.names found
  obtain ⟨rootProper, named⟩ := List.forall_mem_append.mp whole
  rw [isOutput_joined rootProper named listed rfl, scanRules]
  cases path : t.canonical p.config.outputRoot with
  | ok q =>
    obtain ⟨location, there, rfl⟩ := FileTree.path_of_canonical proper path
    dsimp only
    rw [steps_path there, anchor_path]
    constructor
    · rintro ⟨-, rfl⟩
      rfl
    · intro same
      exact ⟨rfl, Location.path_injective there whole (Except.ok.inj same)⟩
  | error e =>
    constructor
    · rintro ⟨anchor, steps⟩
      dsimp only at anchor steps
      have filled : p.config.outputRoot.text ≠ "" := by
        intro empty
        rw [Path.anchor, empty] at anchor
        cases anchor
      have passes : t.top.Passes (t.start p.config.outputRoot) p.config.outputRoot.steps
          (root ++ names) := by
        rw [FileTree.start, Path.isAbsolute_eq, anchor, steps]
        exact Node.passes_names (fun name member => (whole name member).not_up) dir
      rw [FileTree.canonical_passes filled passes] at path
      cases path
    · intro ok
      cases ok

theorem finds_iff_picks {head : String} {below : List String} {node : Node}
    (further : ∀ rest, t.top.at? (root ++ head :: rest) = node.at? rest) :
    (p.scanRules t root.path).Finds [head] node f below ↔
      p.Picks t root (head :: below) ∧ f = sourceAt root (head :: below) := by
  have seen : ∀ rest, t.top.seen? (root ++ head :: rest) = node.seen? rest :=
    fun rest => congrArg (Option.map Node.face) (further rest)
  have output : ∀ above, node.seen? above = some .dir →
      ((p.scanRules t root.path).isOutput (head :: above) = false ↔
        t.canonical p.config.outputRoot ≠ .ok (Location.path (root ++ head :: above))) := by
    intro above dir
    rw [← Bool.not_eq_true, not_congr]
    apply isOutput_iff proper (List.cons_ne_nil _ _)
    rw [seen, dir]
  constructor
  · rintro ⟨file, ⟨x, found, plain⟩, outside, entered, taken, kept⟩
    have solid : x.face ≠ .dir := by
      rw [x.isDir_eq_face] at plain
      simpa using plain
    have between := between_iff (Node.seen?_of_at found) solid head
    refine ⟨⟨List.cons_ne_nil _ _, ⟨x.face, ?_, solid⟩, ?_, ?_, taken, kept⟩, file⟩
    · rw [seen, Node.seen?_of_at found]
    · refine (between fun above =>
        t.canonical p.config.outputRoot ≠ .ok (Location.path (root ++ above))).mpr ?_
      exact fun above inside dir => (output above dir).mp (outside above inside dir)
    · exact (between _).mpr entered
  · rintro ⟨⟨-, ⟨face, there, solid⟩, apart, entered, taken, kept⟩, file⟩
    rw [seen] at there
    have between := between_iff there solid head
    obtain ⟨x, found, rfl⟩ := Option.map_eq_some_iff.mp there
    refine ⟨file, ⟨x, found, ?_⟩, ?_, ?_, taken, kept⟩
    · rw [x.isDir_eq_face]
      exact decide_eq_false solid
    · intro above inside dir
      exact (output above dir).mpr ((between _).mp apart above inside dir)
    · exact (between _).mp entered

variable (rooted : t.node? p.config.root = .ok (root, .dir entries))

include rooted

theorem mem_sources_iff : f ∈ p.sources t ↔ ∃ names, p.Picks t root names ∧ f = sourceAt root names := by
  have top := FileTree.at?_of_node rooted
  have inside := proper.below top
  have further : ∀ {head node}, (Node.dir entries).at? [head] = some node → ∀ rest,
      t.top.at? (root ++ head :: rest) = node.at? rest := by
    intro head node child rest
    rw [Node.at?_append, top, Option.bind_some, ScanRules.at?_entry child]
  rw [sources, sortFiles, List.mem_mergeSort, files_scan rooted,
    ScanRules.mem_scanEntries [] entries fun name node member => (inside.entry member).2.2]
  constructor
  · rintro ⟨head, node, member, below, finds⟩
    exact ⟨head :: below, (finds_iff_picks proper (further (inside.entry member).2.1)).mp finds⟩
  · rintro ⟨names, picks, file⟩
    obtain ⟨head, below, rfl⟩ := List.exists_cons_of_ne_nil picks.below
    obtain ⟨face, there, -⟩ := picks.there
    obtain ⟨x, found, -⟩ := Option.map_eq_some_iff.mp there
    rw [Node.at?_append, top, Option.bind_some] at found
    obtain ⟨node, child, -⟩ := Option.bind_eq_some_iff.mp found
    have member : (head, node) ∈ entries := mem_of_lookup child
    refine ⟨head, node, member, below, ?_⟩
    exact (finds_iff_picks proper (further (inside.entry member).2.1)).mpr ⟨picks, file⟩

omit rooted

theorem scan_distinct : (p.scan t).files.Pairwise fun f g => f.relative ≠ g.relative := by
  cases place : t.node? p.config.root with
  | error fault =>
    rw [scan, place]
    exact .nil
  | ok found =>
    obtain ⟨location, n⟩ := found
    cases kind : n.isDir with
    | false =>
      rw [files_scan_leaf place kind]
      exact ScanRules.scanFile_distinct _ _
    | true =>
      rw [n.isDir_eq_face, decide_eq_true_eq] at kind
      obtain ⟨entries, rfl⟩ := Node.eq_dir_of_face kind
      have inside := proper.below (FileTree.at?_of_node place)
      rw [files_scan place]
      exact ScanRules.scanEntries_distinct _ (by simp) entries (inside [] entries rfl).1
        fun name node member => ⟨(inside.entry member).1, (inside.entry member).2.2⟩

theorem sources_sorted : (p.sources t).Pairwise fun f g => f.relative < g.relative := by
  have distinct : (p.sources t).Pairwise fun f g => f.relative ≠ g.relative :=
    (List.mergeSort_perm _ _).symm.pairwise (scan_distinct proper) fun apart => apart.symm
  have transitive : ∀ a b c : SourceFile, (!decide (b.relative < a.relative)) = true →
      (!decide (c.relative < b.relative)) = true → (!decide (c.relative < a.relative)) = true := by
    intro a b c first second
    simp only [Bool.not_eq_true', decide_eq_false_iff_not, String.not_lt] at first second ⊢
    exact String.le_trans first second
  have total : ∀ a b : SourceFile,
      (!decide (b.relative < a.relative) || !decide (a.relative < b.relative)) = true := by
    intro a b
    simp only [Bool.or_eq_true, Bool.not_eq_true', decide_eq_false_iff_not, String.not_lt]
    exact String.le_total _ _
  have ordered := List.pairwise_mergeSort transitive total (p.scan t).files
  refine (List.Pairwise.and ordered distinct).imp ?_
  rintro f g ⟨before, apart⟩
  simp only [Bool.not_eq_true', decide_eq_false_iff_not, String.not_lt] at before
  by_contra after
  exact apart (String.le_antisymm before (String.not_lt.mp after))

end

theorem sorted_ext {l m : List SourceFile} (left : l.Pairwise fun f g => f.relative < g.relative)
    (right : m.Pairwise fun f g => f.relative < g.relative) (same : ∀ f, f ∈ l ↔ f ∈ m) : l = m := by
  have irreflexive : Std.Irrefl fun f g : SourceFile => f.relative < g.relative :=
    ⟨fun f => String.lt_irrefl _⟩
  have antisymmetric : Std.Antisymm fun f g : SourceFile => f.relative < g.relative :=
    ⟨fun f g before after => absurd after (String.lt_asymm before)⟩
  exact left.eq_of_mem_iff right same

theorem sources_ext {p q : Project} {s t : FileTree} {root : Location}
    {entries others : List (String × Node)} (left : s.top.Proper) (right : t.top.Proper)
    (there : s.node? p.config.root = .ok (root, .dir others))
    (here : t.node? q.config.root = .ok (root, .dir entries))
    (same : ∀ names, p.Picks s root names ↔ q.Picks t root names) : p.sources s = q.sources t := by
  refine sorted_ext (sources_sorted left) (sources_sorted right) fun f => ?_
  rw [mem_sources_iff left there, mem_sources_iff right here]
  simp only [same]

theorem sourceAt_mem_iff {p : Project} {t : FileTree} {root : Location}
    {entries : List (String × Node)} {names : List String} (proper : t.top.Proper)
    (rooted : t.node? p.config.root = .ok (root, .dir entries)) (listed : names ≠ [])
    (named : ∀ name ∈ names, IsName name) :
    sourceAt root names ∈ p.sources t ↔ p.Picks t root names := by
  rw [mem_sources_iff proper rooted]
  constructor
  · rintro ⟨others, picks, same⟩
    have otherNames := picks.named proper
    have relative := congrArg SourceFile.relative same
    rwa [relativeText_injective named otherNames listed picks.below relative]
  · exact fun picks => ⟨names, picks, rfl⟩

theorem picks_alike {p : Project} {s t : FileTree} {root : Location} {names : List String}
    (alike : s.top.Alike t.top) (same : s.workingDir = t.workingDir)
    (picks : p.Picks s root names) : p.Picks t root names := by
  refine ⟨picks.below, ?_, ?_, picks.entered, picks.taken, picks.kept⟩
  · rw [← alike]
    exact picks.there
  · rw [← FileTree.canonical_alike alike same]
    exact picks.apart

end Project

structure Project.Selected (p : Project) (t : FileTree) (root : Location) : Prop where
  sorted : (p.sources t).Pairwise fun f g =>
    Text.encode f.relative.toList < Text.encode g.relative.toList
  mem_iff : ∀ f, f ∈ p.sources t ↔ ∃ names, p.Picks t root names ∧ f = sourceAt root names
  listing : ∀ s : FileTree, s.workingDir = t.workingDir → s.top.Proper → s.top.Alike t.top →
    p.sources s = p.sources t

/-- The source files of a project are exactly those that it picks, in the order of the bytes of their
relative paths. The order in which directories list their entries makes no difference. -/
theorem sources_exact {p : Project} {t : FileTree} {root : Location}
    {entries : List (String × Node)} (proper : t.top.Proper)
    (rooted : t.node? p.config.root = .ok (root, .dir entries)) : p.Selected t root := by
  refine ⟨?_, fun f => Project.mem_sources_iff proper rooted, ?_⟩
  · refine (Project.sources_sorted proper).imp ?_
    exact fun before => Text.encode_lt (String.lt_iff.mp before)
  · intro s same other alike
    obtain ⟨others, there⟩ := FileTree.exists_rooted_of_alike alike same rooted
    refine Project.sources_ext other proper there rooted fun names => ⟨?_, ?_⟩
    · exact Project.picks_alike alike same
    · exact Project.picks_alike alike.symm same.symm

def sampleProject : Project :=
  ⟨{}, ⟨"", none⟩, [⟨"**", ⟨[.leading], true⟩, []⟩], ⟨none, [], []⟩⟩

def sampleTree (entries : List (String × Node)) : FileTree := ⟨.dir entries, []⟩

theorem sampleTree_rooted {entries : List (String × Node)} :
    (sampleTree entries).node? sampleProject.config.root = .ok ([], .dir entries) := by
  have steps : sampleProject.config.root.steps = [] := by decide
  have filled : sampleProject.config.root.text ≠ "" := by decide
  have start : (if sampleProject.config.root.isAbsolute then [] else
    (sampleTree entries).workingDir) = [] := ite_self _
  have top : (sampleTree entries).top.at? [] = some (.dir entries) := rfl
  rw [FileTree.node?, FileTree.resolve, if_neg filled, steps, start, FileTree.walk_nil top]
  simp [Node.isDir]

def linkedEntries : List (String × Node) :=
  [("b", .dir [("c.ts", .file [])]), ("a.ts", .link "b/c.ts")]

theorem linkedEntries_proper : (Node.dir linkedEntries).Proper := by
  refine .dir (by decide) (by decide) (List.forall_mem_cons.mpr ⟨.single (by decide) _, ?_⟩)
  exact List.forall_mem_singleton.mpr (.link _)

theorem sources_exact_linked : sampleProject.Selected (sampleTree linkedEntries) [] :=
  sources_exact linkedEntries_proper sampleTree_rooted

end SourcePages
