import SourcePages.Project.Sources
import SourcePages.Proofs.FileTree.Proper

namespace SourcePages

theorem relativeText_injective {a b : List String} (left : ∀ name ∈ a, IsName name)
    (right : ∀ name ∈ b, IsName name) (filled : a ≠ []) (listed : b ≠ [])
    (same : relativeText a = relativeText b) : a = b := by
  rw [← steps_joined left filled, ← steps_joined right listed]
  exact congrArg (fun text => (⟨text⟩ : Path).steps) same

namespace ScanRules

/-- A file that a scan finds below an entry of the tree. No directory that leads to it is that of the
pages or left out, and neither is the file itself. -/
structure Finds (r : ScanRules) (names : List String) (n : Node) (f : SourceFile)
    (below : List String) : Prop where
  file : f = ⟨r.pathOf (names ++ below), relativeText (names ++ below)⟩
  there : ∃ x, n.at? below = some x ∧ x.isDir = false
  outside : ∀ above, above <+: below → n.seen? above = some .dir →
    r.isOutput (names ++ above) = false
  entered : ∀ above, above <+: below → n.seen? above = some .dir →
    r.filter.ignores (relativeText (names ++ above)) true = false
  taken : anyTakes r.selectors (relativeText (names ++ below)) = true
  kept : r.filter.ignores (relativeText (names ++ below)) false = false

theorem mem_scanFile {r : ScanRules} {names : List String} {f : SourceFile} :
    f ∈ (r.scanFile names).files ↔ anyTakes r.selectors (relativeText names) = true ∧
      r.filter.ignores (relativeText names) false = false ∧
      f = ⟨r.pathOf names, relativeText names⟩ := by
  unfold scanFile
  dsimp only
  cases anyTakes r.selectors (relativeText names) with
  | false => simp
  | true => cases r.filter.ignores (relativeText names) false <;> simp

section

variable {r : ScanRules} {names : List String} {f : SourceFile}

theorem finds_leaf {n : Node} (plain : n.isDir = false) :
    f ∈ (r.scanFile names).files ↔ ∃ below, r.Finds names n f below := by
  have noDir : n.seen? [] ≠ some .dir := by
    intro dir
    obtain ⟨entries, rfl⟩ := Node.eq_dir_of_face (Option.some.inj dir)
    cases plain
  rw [mem_scanFile]
  constructor
  · rintro ⟨taken, kept, file⟩
    have nowhere : ∀ above, above <+: [] → n.seen? above ≠ some .dir := by
      intro above inside
      rwa [List.prefix_nil.mp inside]
    rw [← List.append_nil names] at taken kept file
    exact ⟨[], file, ⟨n, rfl, plain⟩, fun above inside dir => absurd dir (nowhere above inside),
      fun above inside dir => absurd dir (nowhere above inside), taken, kept⟩
  · rintro ⟨below, finds⟩
    have nothing : below = [] := by
      obtain ⟨x, found, -⟩ := finds.there
      cases below with
      | nil => rfl
      | cons name rest =>
        have inside : n.seen? ([] ++ name :: rest) ≠ none := by
          rw [List.nil_append, Node.seen?_of_at found]
          exact Option.some_ne_none _
        exact absurd (Node.seen_dir_of_below inside) noDir
    subst nothing
    have file := finds.file
    have taken := finds.taken
    have kept := finds.kept
    rw [List.append_nil] at file taken kept
    exact ⟨taken, kept, file⟩

variable {entries : List (String × Node)} {name : String} {node : Node} {below : List String}

theorem at?_entry (child : (Node.dir entries).at? [name] = some node) (rest : List String) :
    (Node.dir entries).at? (name :: rest) = node.at? rest := by
  rw [← List.singleton_append, Node.at?_append, child, Option.bind_some]

theorem forall_above_cons (child : (Node.dir entries).at? [name] = some node)
    (names below : List String) (test : List String → Bool) :
    (∀ above, above <+: name :: below → (Node.dir entries).seen? above = some .dir →
      test (names ++ above) = false) ↔
    test names = false ∧ ∀ above, above <+: below → node.seen? above = some .dir →
      test (names ++ [name] ++ above) = false := by
  constructor
  · intro all
    constructor
    · have own := all [] List.nil_prefix rfl
      rwa [List.append_nil] at own
    · intro above inside dir
      rw [List.append_assoc, List.singleton_append]
      apply all _ (List.cons_prefix_cons.mpr ⟨rfl, inside⟩)
      rwa [Node.seen?, at?_entry child]
  · rintro ⟨own, all⟩ above inside dir
    cases above with
    | nil => rwa [List.append_nil]
    | cons head rest =>
      obtain ⟨rfl, lower⟩ := List.cons_prefix_cons.mp inside
      rw [Node.seen?, at?_entry child] at dir
      have apart := all rest lower dir
      rwa [List.append_assoc, List.singleton_append] at apart

theorem finds_cons (child : (Node.dir entries).at? [name] = some node) :
    r.Finds names (.dir entries) f (name :: below) ↔ r.isOutput names = false ∧
      r.filter.ignores (relativeText names) true = false ∧
      r.Finds (names ++ [name]) node f below := by
  have parts : names ++ name :: below = names ++ [name] ++ below := by simp
  have outside := forall_above_cons child names below r.isOutput
  have entered := forall_above_cons child names below fun above =>
    r.filter.ignores (relativeText above) true
  constructor
  · rintro ⟨file, there, out, enter, taken, kept⟩
    rw [parts] at file taken kept
    rw [at?_entry child] at there
    obtain ⟨apart, further⟩ := outside.mp out
    obtain ⟨opened, deeper⟩ := entered.mp enter
    exact ⟨apart, opened, file, there, further, deeper, taken, kept⟩
  · rintro ⟨apart, opened, file, there, further, deeper, taken, kept⟩
    rw [← parts] at file taken kept
    rw [← at?_entry child] at there
    exact ⟨file, there, outside.mpr ⟨apart, further⟩, entered.mpr ⟨opened, deeper⟩, taken, kept⟩

theorem finds_dir (proper : (Node.dir entries).Proper) :
    (∃ below, r.Finds names (.dir entries) f below) ↔ r.isOutput names = false ∧
      r.filter.ignores (relativeText names) true = false ∧
      ∃ name node, (name, node) ∈ entries ∧ ∃ below, r.Finds (names ++ [name]) node f below := by
  constructor
  · rintro ⟨below, finds⟩
    obtain ⟨x, found, plain⟩ := finds.there
    cases below with
    | nil =>
      cases found
      cases plain
    | cons name rest =>
      obtain ⟨node, entry, -⟩ := Option.bind_eq_some_iff.mp found
      have member : (name, node) ∈ entries := mem_of_lookup entry
      obtain ⟨apart, opened, further⟩ := (finds_cons (proper.entry member).2.1).mp finds
      exact ⟨apart, opened, name, node, member, rest, further⟩
  · rintro ⟨apart, opened, name, node, member, below, finds⟩
    exact ⟨name :: below, (finds_cons (proper.entry member).2.1).mpr ⟨apart, opened, finds⟩⟩

end

mutual

theorem mem_scanEntry {r : ScanRules} {f : SourceFile} (names : List String) :
    ∀ n : Node, n.Proper → (f ∈ (r.scanEntry names n).files ↔ ∃ below, r.Finds names n f below)
  | .file bytes, _ => by
    rw [scanEntry]
    exact finds_leaf rfl
  | .link target, _ => by
    rw [scanEntry]
    exact finds_leaf rfl
  | .dir entries, proper => by
    rw [finds_dir proper, ← mem_scanEntries names entries
      (fun name node member => (proper.entry member).2.2), scanEntry]
    split
    · simp_all
    · split <;> simp_all

theorem mem_scanEntries {r : ScanRules} {f : SourceFile} (names : List String) :
    ∀ entries : List (String × Node), (∀ name node, (name, node) ∈ entries → node.Proper) →
      (f ∈ (r.scanEntries names entries).files ↔
        ∃ name node, (name, node) ∈ entries ∧ ∃ below, r.Finds (names ++ [name]) node f below)
  | [], _ => by simp [scanEntries]
  | (name, node) :: rest, proper => by
    have first := mem_scanEntry (r := r) (f := f) (names ++ [name]) node
      (proper name node List.mem_cons_self)
    have later := mem_scanEntries (r := r) (f := f) names rest fun name node member =>
      proper name node (List.mem_cons_of_mem _ member)
    rw [scanEntries, Scan.append, List.mem_append, first, later]
    constructor
    · rintro (finds | ⟨other, child, member, finds⟩)
      · exact ⟨name, node, List.mem_cons_self, finds⟩
      · exact ⟨other, child, List.mem_cons_of_mem _ member, finds⟩
    · rintro ⟨other, child, member, finds⟩
      rcases List.mem_cons.mp member with same | member
      · cases same
        exact .inl finds
      · exact .inr ⟨other, child, member, finds⟩

end

theorem scanFile_distinct (r : ScanRules) (names : List String) :
    (r.scanFile names).files.Pairwise fun f g => f.relative ≠ g.relative := by
  unfold scanFile
  dsimp only
  split
  · exact .nil
  · split
    · exact .nil
    · exact List.pairwise_singleton _ _

theorem Finds.named {r : ScanRules} {names below : List String} {n : Node} {f : SourceFile}
    (h : r.Finds names n f below) (proper : n.Proper) (named : ∀ name ∈ names, IsName name) :
    ∀ name ∈ names ++ below, IsName name := by
  obtain ⟨x, found, -⟩ := h.there
  exact List.forall_mem_append.mpr ⟨named, proper.names found⟩

mutual

theorem scanEntry_distinct (r : ScanRules) {names : List String}
    (named : ∀ name ∈ names, IsName name) : ∀ n : Node, n.Proper →
      (r.scanEntry names n).files.Pairwise fun f g => f.relative ≠ g.relative
  | .file bytes, _ => by
    rw [scanEntry]
    exact r.scanFile_distinct names
  | .link target, _ => by
    rw [scanEntry]
    exact r.scanFile_distinct names
  | .dir entries, proper => by
    rw [scanEntry]
    split
    · exact .nil
    · split
      · exact .nil
      · exact r.scanEntries_distinct named entries (proper [] entries rfl).1
          fun name node member => ⟨(proper.entry member).1, (proper.entry member).2.2⟩

theorem scanEntries_distinct (r : ScanRules) {names : List String}
    (named : ∀ name ∈ names, IsName name) : ∀ entries : List (String × Node),
      (entries.map (·.1)).Nodup → (∀ name node, (name, node) ∈ entries → IsName name ∧ node.Proper) →
      (r.scanEntries names entries).files.Pairwise fun f g => f.relative ≠ g.relative
  | [], _, _ => .nil
  | (name, node) :: rest, distinct, proper => by
    obtain ⟨absent, later⟩ := List.nodup_cons.mp distinct
    have own := proper name node List.mem_cons_self
    have others : ∀ name node, (name, node) ∈ rest → IsName name ∧ node.Proper :=
      fun name node member => proper name node (List.mem_cons_of_mem _ member)
    have further : ∀ {last : String}, IsName last → ∀ part ∈ names ++ [last], IsName part :=
      fun last => List.forall_mem_append.mpr ⟨named, List.forall_mem_singleton.mpr last⟩
    rw [scanEntries, Scan.append]
    refine List.pairwise_append.mpr ⟨scanEntry_distinct r (further own.1) node own.2,
      scanEntries_distinct r named rest later others, ?_⟩
    intro f left g right same
    obtain ⟨below, finds⟩ := (mem_scanEntry _ node own.2).mp left
    obtain ⟨other, child, member, rest, found⟩ :=
      (mem_scanEntries names rest fun name node member => (others name node member).2).mp right
    rw [finds.file, found.file] at same
    have leftNames := finds.named own.2 (further own.1)
    have rightNames := found.named (others _ _ member).2 (further (others _ _ member).1)
    have equal := relativeText_injective leftNames rightNames (by simp) (by simp) same
    simp only [List.append_assoc, List.append_cancel_left_eq, List.singleton_append,
      List.cons.injEq] at equal
    obtain ⟨rfl, -⟩ := equal
    exact absent (List.mem_map.mpr ⟨_, member, rfl⟩)

end

end ScanRules

end SourcePages
