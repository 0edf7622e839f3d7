import SourcePages.Proofs.Project.Selection

namespace SourcePages

def Path.Ordinary (p : Path) : Prop :=
  p.components ≠ [] ∧ ∀ c ∈ p.components, ∃ name, c = .normal name

theorem Path.Ordinary.spec {p : Path} (h : p.Ordinary) :
    p.isAbsolute = false ∧ p.steps ≠ [] ∧ ∀ name ∈ p.steps, IsName name := by
  obtain ⟨filled, normal⟩ := h
  rw [Path.components_eq] at filled normal
  have anchor : p.anchorComponents = [] := by
    rcases p.split_text with ⟨-, anchor⟩ | ⟨-, anchor⟩ | ⟨more, -, -, anchor⟩
    · simp [Path.anchorComponents, anchor]
    · obtain ⟨name, same⟩ := normal .root (by simp [Path.anchorComponents, anchor])
      cases same
    · obtain ⟨name, same⟩ := normal .current (by simp [Path.anchorComponents, anchor])
      cases same
  rw [anchor, List.nil_append] at filled normal
  refine ⟨?_, by simpa using filled, ?_⟩
  · rw [Path.isAbsolute_eq]
    apply decide_eq_false
    intro root
    simp [Path.anchorComponents, root] at anchor
  · intro name member
    apply Path.name_of_mem_steps member
    rintro rfl
    obtain ⟨name, same⟩ := normal _ (List.mem_map_of_mem member)
    simp [Path.stepComponent] at same

/-- A project whose root leads to a directory, in a tree without links, and whose pages go to a
directory of proper names below the root. -/
structure Project.Grounded (p : Project) (t : FileTree) (root : Location) (out : List String) :
    Prop where
  free : t.top.LinkFree
  filled : p.config.root.text ≠ ""
  passes : t.top.Passes (t.start p.config.root) p.config.root.steps root
  relative : p.config.outputDir.isAbsolute = false
  steps : p.config.outputDir.steps = out
  proper : ∀ name ∈ out, IsName name
  listed : out ≠ []

namespace Project.Grounded

variable {p : Project} {t : FileTree} {root : Location} {out : List String}

theorem of_node (free : t.top.LinkFree) (ordinary : p.config.outputDir.Ordinary)
    {entries : List (String × Node)} (found : t.node? p.config.root = .ok (root, .dir entries)) :
    p.Grounded t root p.config.outputDir.steps := by
  obtain ⟨relative, listed, proper⟩ := ordinary.spec
  have resolved := FileTree.resolve_of_node found
  rw [FileTree.resolve] at resolved
  split at resolved
  · cases resolved
  · rename_i filled
    exact ⟨free, filled, FileTree.passes_of_walk free resolved, relative, rfl, proper, listed⟩

theorem outputRoot_eq (h : p.Grounded t root out) :
    p.config.outputRoot = p.config.root.join p.config.outputDir := by
  simp [Config.outputRoot, Config.resolve, h.relative]

theorem steps_outputRoot (h : p.Grounded t root out) :
    p.config.outputRoot.steps = p.config.root.steps ++ out := by
  rw [h.outputRoot_eq, Path.steps_join h.filled h.relative, h.steps]

theorem anchor_outputRoot (h : p.Grounded t root out) :
    p.config.outputRoot.anchor = p.config.root.anchor := by
  rw [h.outputRoot_eq, Path.anchor_join h.filled h.relative]

theorem filled_outputRoot (h : p.Grounded t root out) : p.config.outputRoot.text ≠ "" := by
  intro empty
  have steps := h.steps_outputRoot
  have nothing : p.config.outputRoot.steps = [] := by
    rw [Path.steps_eq_segments, empty]
    decide
  rw [nothing] at steps
  exact h.listed (List.append_eq_nil_iff.mp steps.symm).2

theorem plain (h : p.Grounded t root out) : ∀ name ∈ out, name ≠ ".." :=
  fun name member => (h.proper name member).not_up

theorem seen_root (h : p.Grounded t root out) : t.top.seen? root = some .dir :=
  h.passes.seen_dir_end

theorem passes_outputRoot (h : p.Grounded t root out) (dir : t.top.seen? (root ++ out) = some .dir) :
    t.top.Passes (t.start p.config.outputRoot) p.config.outputRoot.steps (root ++ out) := by
  rw [h.steps_outputRoot, FileTree.start_eq_of_anchor h.anchor_outputRoot]
  exact h.passes.append (Node.passes_names h.plain dir)

theorem canonical_outputRoot (h : p.Grounded t root out)
    (dir : t.top.seen? (root ++ out) = some .dir) :
    t.canonical p.config.outputRoot = .ok (Location.path (root ++ out)) :=
  FileTree.canonical_passes h.filled_outputRoot (h.passes_outputRoot dir)

theorem eq_of_canonical_outputRoot (h : p.Grounded t root out) {q : Path}
    (path : t.canonical p.config.outputRoot = .ok q) : q = Location.path (root ++ out) := by
  obtain ⟨location, n, found, same⟩ := FileTree.node_of_canonical path
  have resolved := FileTree.resolve_of_node found
  rw [FileTree.resolve, if_neg h.filled_outputRoot, ← FileTree.start,
    FileTree.start_eq_of_anchor h.anchor_outputRoot, h.steps_outputRoot,
    FileTree.walk_passes h.passes] at resolved
  rw [same, FileTree.location_of_walk (fun _ _ => h.free.not_link) h.plain resolved]

theorem rooted (h : p.Grounded t root out) :
    ∃ entries, t.node? p.config.root = .ok (root, .dir entries) :=
  FileTree.node?_passes h.filled h.passes

end Project.Grounded

/-- Whether a file with some names below the root is documented, for pages that go to some names
below the root. This does not depend on the tree. -/
structure Project.Admits (p : Project) (out names : List String) : Prop where
  below : names ≠ []
  apart : ∀ rest, names = out ++ rest → rest = []
  entered : ∀ above, above <+: names → above ≠ [] → above ≠ names →
    p.filter.ignores (relativeText above) true = false
  taken : anyTakes p.selectors (relativeText names) = true
  kept : p.filter.ignores (relativeText names) false = false

theorem Project.Grounded.picks_iff {p : Project} {t : FileTree} {root : Location}
    {out names : List String} (h : p.Grounded t root out) (proper : t.top.Proper) :
    p.Picks t root names ↔
      p.Admits out names ∧ ∃ bytes, t.top.seen? (root ++ names) = some (.file bytes) := by
  constructor
  · intro picks
    obtain ⟨face, there, plain⟩ := picks.there
    refine ⟨⟨picks.below, ?_, picks.entered, picks.taken, picks.kept⟩, ?_⟩
    · rintro rest rfl
      by_contra more
      obtain ⟨next, others, rfl⟩ := List.exists_cons_of_ne_nil more
      have dir : t.top.seen? (root ++ out) = some .dir := by
        apply Node.seen_dir_of_below
        rw [List.append_assoc, there]
        exact Option.some_ne_none _
      refine picks.apart out (List.prefix_append _ _) h.listed ?_ (h.canonical_outputRoot dir)
      simp
    · cases face with
      | file bytes => exact ⟨bytes, there⟩
      | link target => exact absurd there (h.free _ _)
      | dir => exact absurd rfl plain
  · rintro ⟨admits, bytes, file⟩
    refine ⟨admits.below, ⟨_, file, by simp⟩, ?_, admits.entered, admits.taken, admits.kept⟩
    intro above inside _ other path
    obtain ⟨rest, rfl⟩ := inside
    have notLast : rest ≠ [] := by
      rintro rfl
      exact other (List.append_nil above).symm
    have whole := proper.names (Node.at?_of_seen_file file)
    rw [← List.append_assoc] at whole
    have named := (List.forall_mem_append.mp whole).1
    have output : ∀ name ∈ root ++ out, IsName name :=
      List.forall_mem_append.mpr ⟨(List.forall_mem_append.mp named).1, h.proper⟩
    have same := h.eq_of_canonical_outputRoot path
    have equal := List.append_cancel_left (Location.path_injective named output same)
    exact notLast (admits.apart rest (by rw [equal]))

/-- A source file in its directory below the root. It is a file of the tree and not in the directory
of the pages. -/
structure Site (t : FileTree) (root : Location) (out : List String) (f : SourceFile)
    (dirs : List String) (name : String) : Prop where
  file : f = sourceAt root (dirs ++ [name])
  rootProper : ∀ part ∈ root, IsName part
  proper : ∀ part ∈ dirs ++ [name], IsName part
  there : ∃ bytes, t.top.seen? (root ++ (dirs ++ [name])) = some (.file bytes)
  apart : ∀ rest, dirs ++ [name] = out ++ rest → rest = []

def Sited (t : FileTree) (root : Location) (out : List String) (f : SourceFile) : Prop :=
  ∃ dirs name, Site t root out f dirs name

theorem sited_of_mem_sources {p : Project} {t : FileTree} {root : Location} {out : List String}
    {entries : List (String × Node)} {f : SourceFile} (h : p.Grounded t root out)
    (proper : t.top.Proper) (found : t.node? p.config.root = .ok (root, .dir entries))
    (member : f ∈ p.sources t) : Sited t root out f := by
  obtain ⟨names, picks, file⟩ := (Project.mem_sources_iff proper found).mp member
  obtain ⟨admits, bytes, there⟩ := (h.picks_iff proper).mp picks
  obtain ⟨dirs, name, rfl⟩ := (List.eq_nil_or_concat' names).resolve_left admits.below
  have whole := List.forall_mem_append.mp (proper.names (Node.at?_of_seen_file there))
  exact ⟨dirs, name, file, whole.1, whole.2, ⟨bytes, there⟩, admits.apart⟩

end SourcePages
