import SourcePages.Proofs.FileTree.Budget
import SourcePages.Proofs.Project.Generate
import SourcePages.Proofs.Project.Loading

/-!
What the spelling of the root has to do with the selection of source files. A project is loaded alike
from two spellings of a directory, but for the root that the rules of a `.gitignore` file take off the
paths they are asked about: paths below the root that begin with the text of the root are asked about
as if they were shorter.
-/

namespace SourcePages

namespace Gitignore

def bareRoot (root : Path) : Path :=
  ((dropPrefix? ['.', '/'] root.text.toList).map fun rest => Path.mk (String.ofList rest)).getD root

/-- Whether the text of a root begins that of a path of several names. -/
def Clashes (root : Path) (names : List String) : Prop :=
  (bareRoot root).text ≠ "" ∧ (bareRoot root).same ⟨"."⟩ = false ∧ 1 < names.length ∧
    (bareRoot root).text.toList <+: (relativeText names).toList

theorem read_eq [Glob.Engine] (root : Path) (bytes : List UInt8) : Gitignore.read root bytes =
    match readRules 1 (fileLines bytes) with
    | (rules, []) =>
      match Glob.Engine.objection? (rules.map (·.pattern)) with
      | none => .ok ⟨bareRoot root, rules⟩
      | some cause => .error (.limit cause)
    | (_, bad) => .error (.lines bad) := rfl

theorem read_ok [Glob.Engine] {root : Path} {bytes : List UInt8} {g : Gitignore}
    (read : Gitignore.read root bytes = .ok g) :
    g.root = bareRoot root ∧
      ∀ other, Gitignore.read other bytes = .ok { g with root := bareRoot other } := by
  rw [read_eq] at read
  split at read
  · rename_i rules found
    split at read
    · rename_i taken
      cases read
      exact ⟨rfl, fun other => by simp only [read_eq, found, taken]⟩
    · cases read
  · cases read

theorem dropPrefix?_eq_none {front text : List Char} (apart : ¬ front <+: text) :
    dropPrefix? front text = none := by
  rw [dropPrefix?, if_neg]
  rwa [List.isPrefixOf_iff_prefix]

section

variable {names : List String} (named : ∀ name ∈ names, IsName name) (listed : names ≠ [])

include named listed

theorem here_not_in_front : ¬ ['.', '/'] <+: (relativeText names).toList := by
  rintro ⟨rest, text⟩
  have pieces := split_names named listed
  rw [← toList_joinWith_slash, ← relativeText, ← text] at pieces
  obtain ⟨first, others, rfl⟩ := List.exists_cons_of_ne_nil listed
  have head : ['.'] = first.toList := (List.cons.inj pieces).1
  exact (named first List.mem_cons_self).2.1 (String.toList_inj.mp (head.symm.trans (by decide)))

theorem slash_not_in_front : ¬ ['/'] <+: (relativeText names).toList := by
  rintro ⟨rest, text⟩
  have relative := relative_joined named listed
  rw [Path.isAbsolute, ← relativeText, ← text] at relative
  cases relative

theorem slash_mem_relativeText (slash : '/' ∈ (relativeText names).toList) : 1 < names.length := by
  obtain ⟨first, others, rfl⟩ := List.exists_cons_of_ne_nil listed
  cases others with
  | nil =>
    rw [relativeText, toList_joinWith_slash] at slash
    exact absurd slash (named first List.mem_cons_self).2.2.2
  | cons second others => simp

theorem strip_eq {g : Gitignore} {root : Path} (own : g.root = bareRoot root)
    (apart : ¬ Clashes root names) : g.strip (relativeText names) = relativeText names := by
  have here : dropPrefix? ['.', '/'] (relativeText names).toList = none :=
    dropPrefix?_eq_none (here_not_in_front named listed)
  unfold strip
  simp only [here, Option.getD_none, String.ofList_toList]
  split
  · rfl
  · rename_i deep
    simp only [Bool.or_eq_true, Bool.not_eq_true', not_or, Bool.not_eq_true, Bool.not_eq_false,
      List.contains_iff_mem] at deep
    rw [own] at deep ⊢
    by_cases empty : (bareRoot root).text = ""
    · have whole : dropPrefix? [] (relativeText names).toList = some (relativeText names).toList := rfl
      rw [empty, String.toList_empty, whole]
      dsimp only
      rw [dropPrefix?_eq_none (slash_not_in_front named listed)]
      exact String.ofList_toList
    · rw [dropPrefix?_eq_none fun inside =>
        apart ⟨empty, deep.1, slash_mem_relativeText named listed deep.2, inside⟩]

end

theorem not_clashes_of_absolute {root : Path} {names : List String}
    (named : ∀ name ∈ names, IsName name) (absolute : root.isAbsolute = true) :
    ¬ Clashes root names := by
  obtain ⟨rest, text⟩ : ∃ rest, root.text.toList = '/' :: rest :=
    List.head?_eq_some_iff.mp (eq_of_beq absolute)
  have bare : bareRoot root = root := by
    rw [bareRoot, text]
    rfl
  rintro ⟨-, -, several, inside⟩
  have listed : names ≠ [] := by
    rintro rfl
    simp at several
  rw [bare, text] at inside
  exact slash_not_in_front named listed (List.IsPrefix.trans ⟨rest, rfl⟩ inside)

end Gitignore

namespace IgnoreFilter

def unruled (f : IgnoreFilter) : IgnoreFilter := { f with gitignore := none }

def respelled (f : IgnoreFilter) (root : Path) : IgnoreFilter :=
  { f with gitignore := f.gitignore.map fun g => { g with root := Gitignore.bareRoot root } }

def rulesIgnore (f : IgnoreFilter) (path : String) (isDirectory : Bool) : Bool :=
  (f.gitignore.map (·.ignores path isDirectory)).getD false

theorem ignores_eq (f : IgnoreFilter) (path : String) (isDirectory : Bool) :
    f.ignores path isDirectory =
      (f.unruled.ignores path isDirectory || f.rulesIgnore path isDirectory) := by
  simp [ignores, unruled, rulesIgnore]

end IgnoreFilter

namespace Project

def unruled (p : Project) : Project := { p with filter := p.filter.unruled }

def respelled (p : Project) (root : Path) : Project :=
  { p with config := { p.config with root := root }, filter := p.filter.respelled root }

/-- Whether the rules of the `.gitignore` file let a file at some names below the root pass, and the
directories that lead to it. -/
structure PassesRules (p : Project) (names : List String) : Prop where
  entered : ∀ above, above <+: names → above ≠ [] → above ≠ names →
    p.filter.rulesIgnore (relativeText above) true = false
  kept : p.filter.rulesIgnore (relativeText names) false = false

theorem picks_iff_passesRules {p : Project} {t : FileTree} {root : Location} {names : List String} :
    p.Picks t root names ↔ p.unruled.Picks t root names ∧ p.PassesRules names := by
  have both : ∀ path isDirectory, p.filter.ignores path isDirectory = false ↔
      p.filter.unruled.ignores path isDirectory = false ∧
        p.filter.rulesIgnore path isDirectory = false := by
    intro path isDirectory
    rw [IgnoreFilter.ignores_eq, Bool.or_eq_false_iff]
  constructor
  · rintro ⟨below, there, apart, entered, taken, kept⟩
    refine ⟨⟨below, there, apart, ?_, taken, ((both _ _).mp kept).1⟩, ?_, ((both _ _).mp kept).2⟩
    · exact fun above inside filled other => ((both _ _).mp (entered above inside filled other)).1
    · exact fun above inside filled other => ((both _ _).mp (entered above inside filled other)).2
  · rintro ⟨⟨below, there, apart, entered, taken, kept⟩, ruled, passed⟩
    refine ⟨below, there, apart, ?_, taken, (both _ _).mpr ⟨kept, passed⟩⟩
    exact fun above inside filled other =>
      (both _ _).mpr ⟨entered above inside filled other, ruled above inside filled other⟩

def selection (p : Project) (t : FileTree) : List String := (p.sources t).map SourceFile.relative

theorem sources_eq_of_selection {p : Project} {t : FileTree} {root : Location}
    {entries : List (String × Node)} (proper : t.top.Proper)
    (rooted : t.node? p.config.root = .ok (root, .dir entries)) :
    p.sources t =
      (p.selection t).map fun relative => ⟨root.path.join ⟨relative⟩, relative⟩ := by
  rw [selection, List.map_map]
  refine (List.map_id _).symm.trans (List.map_congr_left fun f member => ?_)
  obtain ⟨names, -, rfl⟩ := (mem_sources_iff proper rooted).mp member
  rfl

theorem sourceAt_mem_iff_passesRules {p : Project} {t : FileTree} {root : Location}
    {names : List String} {entries : List (String × Node)} (proper : t.top.Proper)
    (rooted : t.node? p.config.root = .ok (root, .dir entries))
    (picks : p.unruled.Picks t root names) :
    sourceAt root names ∈ p.sources t ↔ p.PassesRules names := by
  rw [sourceAt_mem_iff proper rooted picks.below (picks.named proper), picks_iff_passesRules]
  exact and_iff_right picks

section

variable {t : FileTree} {c : Config} {s : Path}

theorem loadGitignore_respelled [Glob.Engine] {g : Option Gitignore}
    (same : c.respectGitignore = true →
      t.node? (c.root.join ⟨".gitignore"⟩) = t.node? (s.join ⟨".gitignore"⟩))
    (loaded : loadGitignore t c = .ok g) :
    (∀ rules, g = some rules → rules.root = Gitignore.bareRoot c.root ∧ c.respectGitignore = true) ∧
      loadGitignore t { c with root := s } =
        .ok (g.map fun rules => { rules with root := Gitignore.bareRoot s }) := by
  unfold loadGitignore at loaded ⊢
  dsimp only at loaded ⊢
  cases respects : c.respectGitignore with
  | false =>
    rw [respects] at loaded
    cases loaded
    exact ⟨nofun, rfl⟩
  | true =>
    have has : t.has (s.join ⟨".gitignore"⟩) = t.has (c.root.join ⟨".gitignore"⟩) := by
      rw [FileTree.has, FileTree.has, same respects]
    have read : t.read (s.join ⟨".gitignore"⟩) = t.read (c.root.join ⟨".gitignore"⟩) := by
      rw [FileTree.read, FileTree.read, same respects]
    rw [has, read]
    rw [respects] at loaded
    split at loaded
    · rename_i there
      rw [if_pos there]
      split at loaded
      · cases loaded
      · split at loaded
        · rename_i rules parsed
          cases loaded
          obtain ⟨own, others⟩ := Gitignore.read_ok parsed
          refine ⟨?_, ?_⟩
          · rintro other ⟨⟩
            exact ⟨own, rfl⟩
          · rw [others s]
            rfl
        · cases loaded
    · rename_i missing
      rw [if_neg missing]
      cases loaded
      exact ⟨nofun, rfl⟩

theorem loadWith_respelled [Glob.Engine] {repository : Repository} {patterns : List String} {p : Project}
    (same : c.respectGitignore = true →
      t.node? (c.root.join ⟨".gitignore"⟩) = t.node? (s.join ⟨".gitignore"⟩))
    (loaded : loadWith t c repository patterns = .ok p) :
    p.config = c ∧
      (∀ rules, p.filter.gitignore = some rules →
        rules.root = Gitignore.bareRoot c.root ∧ c.respectGitignore = true) ∧
      loadWith t { c with root := s } repository patterns = .ok (p.respelled s) := by
  obtain ⟨selected, filter, rfl, rfl⟩ := loadWith_ok_iff.mp loaded
  obtain ⟨rules, ignores, below⟩ := IgnoreFilter.load_ok_iff.mp filter
  obtain ⟨own, other⟩ := loadGitignore_respelled same rules
  have filter' : IgnoreFilter.load t { p.config with root := s } = .ok (p.filter.respelled s) :=
    IgnoreFilter.load_ok_iff.mpr ⟨other, ignores, below⟩
  exact ⟨rfl, own, loadWith_ok_iff.mpr ⟨selected, filter', rfl, rfl⟩⟩

end

section

variable {p : Project} {t : FileTree} {root : Location} {names : List String} {s : Path}
  {entries : List (String × Node)}

theorem passesRules_respelled
    (named : ∀ name ∈ names, IsName name) (listed : names ≠ [])
    (rules : ∀ g, p.filter.gitignore = some g → g.root = Gitignore.bareRoot p.config.root ∧
      ∀ above, above <+: names →
        ¬ Gitignore.Clashes p.config.root above ∧ ¬ Gitignore.Clashes s above) :
    (p.respelled s).PassesRules names ↔ p.PassesRules names := by
  have same : ∀ above, above <+: names → above ≠ [] → ∀ isDirectory,
      (p.respelled s).filter.rulesIgnore (relativeText above) isDirectory =
        p.filter.rulesIgnore (relativeText above) isDirectory := by
    intro above inside filled isDirectory
    have part : ∀ name ∈ above, IsName name := fun name member => named name (inside.subset member)
    unfold IgnoreFilter.rulesIgnore respelled IgnoreFilter.respelled
    cases ruled : p.filter.gitignore with
    | none => rfl
    | some g =>
      obtain ⟨own, apart⟩ := rules g ruled
      have here := Gitignore.strip_eq part filled own (apart above inside).1
      have there := Gitignore.strip_eq (g := { g with root := Gitignore.bareRoot s }) part filled rfl
        (apart above inside).2
      simp only [Option.map_some, Option.getD_some, Gitignore.ignores, here, there]
  constructor
  · rintro ⟨entered, kept⟩
    refine ⟨fun above inside filled other => ?_, ?_⟩
    · rw [← same above inside filled]
      exact entered above inside filled other
    · rwa [← same names List.prefix_rfl listed]
  · rintro ⟨entered, kept⟩
    refine ⟨fun above inside filled other => ?_, ?_⟩
    · rw [same above inside filled]
      exact entered above inside filled other
    · rwa [same names List.prefix_rfl listed]

variable (proper : t.top.Proper) (here : t.node? p.config.root = .ok (root, .dir entries))
  (there : t.node? s = .ok (root, .dir entries))
  (pages : t.canonical (p.respelled s).config.outputRoot = t.canonical p.config.outputRoot)

include pages

theorem unruled_picks_respelled :
    (p.respelled s).unruled.Picks t root names ↔ p.unruled.Picks t root names := by
  constructor
  · rintro ⟨below, face, apart, entered, taken, kept⟩
    exact ⟨below, face, pages ▸ apart, entered, taken, kept⟩
  · rintro ⟨below, face, apart, entered, taken, kept⟩
    exact ⟨below, face, pages.symm ▸ apart, entered, taken, kept⟩

include proper here there

theorem selection_eq_iff : (p.respelled s).selection t = p.selection t ↔
    ∀ names, p.unruled.Picks t root names →
      ((p.respelled s).PassesRules names ↔ p.PassesRules names) := by
  constructor
  · intro alike names picks
    have same : (p.respelled s).sources t = p.sources t := by
      rw [sources_eq_of_selection proper here, ← alike]
      exact sources_eq_of_selection (p := p.respelled s) proper there
    have other := (unruled_picks_respelled pages).mpr picks
    rw [← sourceAt_mem_iff_passesRules proper here picks,
      ← sourceAt_mem_iff_passesRules (p := p.respelled s) proper there other, same]
  · intro agree
    apply congrArg (List.map SourceFile.relative)
    apply sources_ext (p := p.respelled s) proper proper there here
    intro names
    rw [picks_iff_passesRules (p := p), picks_iff_passesRules (p := p.respelled s),
      unruled_picks_respelled pages]
    exact and_congr_right fun picks => agree names picks

end

end Project

/-- Whether neither of two spellings of a directory gets lost in links on the way to a path below. -/
def FileTree.Unlooped (t : FileTree) (r s below : Path) : Prop :=
  t.node? (r.join below) ≠ .error .linkLoop ∧ t.node? (s.join below) ≠ .error .linkLoop

theorem FileTree.unlooped_of_linkFree {t : FileTree} (free : t.top.LinkFree) (r s below : Path) :
    t.Unlooped r s below :=
  ⟨FileTree.node?_unlooped free, FileTree.node?_unlooped free⟩

theorem Project.canonical_outputRoot_respelled {p : Project} {t : FileTree} {s : Path}
    {root : Location} {entries : List (String × Node)}
    (relative : p.config.outputDir.isAbsolute = false)
    (here : t.node? p.config.root = .ok (root, .dir entries))
    (there : t.node? s = .ok (root, .dir entries))
    (pages : t.Unlooped p.config.root s p.config.outputDir) :
    t.canonical (p.respelled s).config.outputRoot = t.canonical p.config.outputRoot := by
  have spelled : ∀ c : Config, c.outputDir.isAbsolute = false →
      c.outputRoot = c.root.join c.outputDir := by
    intro c relative
    rw [Config.outputRoot, Config.resolve, if_neg (by simp [relative])]
  rw [spelled _ relative, spelled (p.respelled s).config relative, FileTree.canonical,
    FileTree.canonical, FileTree.node?_join_eq here there relative pages.1 pages.2]
  rfl

/-- A project can be loaded from another spelling of its root as well. The sources are the same if and
only if the rules of the `.gitignore` file let the same files pass from both spellings; and so they do
where neither spelling begins a path below the root. -/
theorem selection_respelled_iff [Glob.Engine] {t : FileTree} {c : Config} {repository : Repository}
    {patterns : List String} {p : Project} {s : Path} {root : Location}
    {entries : List (String × Node)} (proper : t.top.Proper)
    (relative : c.outputDir.isAbsolute = false)
    (here : t.node? c.root = .ok (root, .dir entries)) (there : t.node? s = .ok (root, .dir entries))
    (pages : t.Unlooped c.root s c.outputDir)
    (rules : c.respectGitignore = true → t.Unlooped c.root s ⟨".gitignore"⟩)
    (loaded : Project.loadWith t c repository patterns = .ok p) :
    Project.loadWith t { c with root := s } repository patterns = .ok (p.respelled s) ∧
    ((p.respelled s).selection t = p.selection t ↔ ∀ names, p.unruled.Picks t root names →
      ((p.respelled s).PassesRules names ↔ p.PassesRules names)) ∧
    ((c.respectGitignore = true → ∀ names, t.top.seen? (root ++ names) ≠ none →
      ¬ Gitignore.Clashes c.root names ∧ ¬ Gitignore.Clashes s names) →
      (p.respelled s).selection t = p.selection t) := by
  have same : c.respectGitignore = true →
      t.node? (c.root.join ⟨".gitignore"⟩) = t.node? (s.join ⟨".gitignore"⟩) :=
    fun respects => FileTree.node?_join_eq here there (by decide) (rules respects).1 (rules respects).2
  obtain ⟨rfl, own, other⟩ := Project.loadWith_respelled same loaded
  have output := Project.canonical_outputRoot_respelled relative here there pages
  have told := Project.selection_eq_iff proper here there output
  refine ⟨other, told, ?_⟩
  intro apart
  apply told.mpr
  intro names picks
  apply Project.passesRules_respelled (picks.named proper) picks.below
  intro g ruled
  obtain ⟨bare, respects⟩ := own g ruled
  refine ⟨bare, ?_⟩
  rintro above ⟨rest, rfl⟩
  apply apart respects
  intro missing
  obtain ⟨x, found⟩ := picks.found
  rw [← List.append_assoc, Node.at?_append, Node.at?_of_seen_none missing] at found
  cases found

def clashInside : List (String × Node) :=
  [(".gitignore", .file (Text.encode "/x.ts\n".toList)), ("a", .dir [("x.ts", .file [])])]

def clashEntries : List (String × Node) := [("a", .dir clashInside)]

theorem clashEntries_linkFree : (Node.dir clashEntries).LinkFree := by
  refine .dir (List.forall_mem_singleton.mpr (.dir ?_))
  exact List.forall_mem_cons.mpr ⟨.file _, List.forall_mem_singleton.mpr (.single _ _)⟩

theorem clashEntries_proper : (Node.dir clashEntries).Proper := by
  refine .dir (by decide) (by decide) (List.forall_mem_singleton.mpr (.dir (by decide) (by decide) ?_))
  exact List.forall_mem_cons.mpr ⟨.file _, List.forall_mem_singleton.mpr (.single (by decide) _)⟩

def clashConfig : Config := { root := ⟨"a"⟩, respectGitignore := true }

def clashProject : Project :=
  ⟨clashConfig, ⟨"", none⟩, sampleProject.selectors,
    ⟨some ⟨⟨"a"⟩, [⟨⟨"x.ts".toList.map .literal, true⟩, false, false⟩]⟩, [], []⟩⟩

theorem clashTree_rooted {p : Path} (steps : p.steps = ["a"]) (filled : p.text ≠ "") :
    (sampleTree clashEntries).node? p = .ok (["a"], .dir clashInside) := by
  have dir : (sampleTree clashEntries).top.seen? ([] ++ ["a"]) = some .dir := rfl
  have passes : (sampleTree clashEntries).top.Passes ((sampleTree clashEntries).start p) p.steps
      ["a"] := by
    rw [steps, FileTree.start, sampleTree, ite_self]
    exact Node.passes_names (by decide) dir
  obtain ⟨entries, found⟩ := FileTree.node?_passes filled passes
  cases FileTree.at?_of_node found
  exact found

theorem clashProject_loaded :
    Project.loadWith (sampleTree clashEntries) clashConfig ⟨"", none⟩ ["**"] = .ok clashProject := by
  have leads : (sampleTree clashEntries).Leads ⟨"a/.gitignore"⟩ [] (["a"] ++ [".gitignore"]) :=
    sampleTree_leads (by decide) (by decide) ⟨[['a']], by decide⟩
  have found := leads.node?_found clashEntries_linkFree rfl
  have path : clashConfig.root.join ⟨".gitignore"⟩ = ⟨"a/.gitignore"⟩ := by decide
  have has : (sampleTree clashEntries).has ⟨"a/.gitignore"⟩ = true := by
    rw [FileTree.has, found]
  have read : (sampleTree clashEntries).read ⟨"a/.gitignore"⟩ =
      .ok (Text.encode "/x.ts\n".toList) := by
    rw [FileTree.read, found]
  have rules : loadGitignore (sampleTree clashEntries) clashConfig =
      .ok clashProject.filter.gitignore := by
    simp only [loadGitignore, path, has, read]
    rfl
  have selectors : readSelectors ["**"] = .ok clashProject.selectors := rfl
  simp only [Project.loadWith, selectors, IgnoreFilter.load, rules]
  rfl

theorem clashProject_rooted :
    (sampleTree clashEntries).node? clashProject.config.root = .ok (["a"], .dir clashInside) :=
  clashTree_rooted (by decide) (by decide)

theorem clashTree_unlooped (r s below : Path) : (sampleTree clashEntries).Unlooped r s below :=
  FileTree.unlooped_of_linkFree clashEntries_linkFree r s below

theorem clashProject_respelled {s : Path}
    (there : (sampleTree clashEntries).node? s = .ok (["a"], .dir clashInside)) :
    Project.loadWith (sampleTree clashEntries) { clashConfig with root := s } ⟨"", none⟩ ["**"] =
      .ok (clashProject.respelled s) := by
  obtain ⟨first, second⟩ := clashTree_unlooped clashProject.config.root s ⟨".gitignore"⟩
  have same := FileTree.node?_join_eq clashProject_rooted there (by decide) first second
  exact (Project.loadWith_respelled (fun _ => same) clashProject_loaded).2.2

theorem clash_unruled_picks :
    clashProject.unruled.Picks (sampleTree clashEntries) ["a"] ["a", "x.ts"] := by
  have leads : (sampleTree clashEntries).Leads clashProject.config.outputRoot [] (["a"] ++ ["docs"]) :=
    sampleTree_leads (by decide) (by decide) ⟨[['a']], by decide⟩
  have missing := leads.node?_missing clashEntries_linkFree (Node.not_blocked_of_dir rfl) rfl
  refine ⟨by decide, ⟨_, rfl, nofun⟩, ?_, ?_, by decide +kernel, by decide +kernel⟩
  · intro above inside filled other path
    rw [Project.unruled, FileTree.canonical, missing] at path
    cases path
  · intro above inside filled other
    rfl

/-- Whether a file is left out depends on how its root is spelled. -/
theorem clash_selection_differs :
    (sampleTree clashEntries).top.Proper ∧ clashConfig.outputDir.isAbsolute = false ∧
      (sampleTree clashEntries).node? ⟨"a"⟩ = .ok (["a"], .dir clashInside) ∧
      (sampleTree clashEntries).node? ⟨"/a"⟩ = .ok (["a"], .dir clashInside) ∧
      ∃ p q, Project.loadWith (sampleTree clashEntries) { clashConfig with root := ⟨"a"⟩ } ⟨"", none⟩
          ["**"] = .ok p ∧
        Project.loadWith (sampleTree clashEntries) { clashConfig with root := ⟨"/a"⟩ } ⟨"", none⟩
          ["**"] = .ok q ∧
        q.selection (sampleTree clashEntries) ≠ p.selection (sampleTree clashEntries) := by
  have here := clashProject_rooted
  have there : (sampleTree clashEntries).node? ⟨"/a"⟩ = .ok (["a"], .dir clashInside) :=
    clashTree_rooted (by decide) (by decide)
  have output := Project.canonical_outputRoot_respelled (by decide) here there
    (clashTree_unlooped _ _ _)
  refine ⟨clashEntries_proper, by decide, here, there, _, _, clashProject_loaded,
    clashProject_respelled there, ?_⟩
  intro same
  have alike := (Project.selection_eq_iff clashEntries_proper here there output).mp same _
    clash_unruled_picks
  have passes : (clashProject.respelled ⟨"/a"⟩).PassesRules ["a", "x.ts"] := by
    refine ⟨?_, by decide +kernel⟩
    intro above inside filled other
    have last : above <+: ["a"] ++ ["x.ts"] := inside
    rcases List.prefix_concat_iff.mp last with same | front
    · exact absurd same other
    · have first : above <+: [] ++ ["a"] := front
      rcases List.prefix_concat_iff.mp first with same | top
      · rw [same]
        decide +kernel
      · exact absurd (List.prefix_nil.mp top) filled
  have left : clashProject.filter.rulesIgnore (relativeText ["a", "x.ts"]) false = true := by
    decide +kernel
  rw [(alike.mp passes).kept] at left
  cases left

theorem clash_selection_absolute :
    ((clashProject.respelled ⟨"/a"⟩).respelled ⟨"/./a"⟩).selection (sampleTree clashEntries) =
      (clashProject.respelled ⟨"/a"⟩).selection (sampleTree clashEntries) := by
  have here : (sampleTree clashEntries).node? ⟨"/a"⟩ = .ok (["a"], .dir clashInside) :=
    clashTree_rooted (by decide) (by decide)
  have there : (sampleTree clashEntries).node? ⟨"/./a"⟩ = .ok (["a"], .dir clashInside) :=
    clashTree_rooted (by decide) (by decide)
  obtain ⟨-, -, apart⟩ := selection_respelled_iff clashEntries_proper (by decide) here there
    (clashTree_unlooped _ _ _) (fun _ => clashTree_unlooped _ _ _) (clashProject_respelled here)
  apply apart
  intro _ names seen
  obtain ⟨face, seen⟩ := Option.ne_none_iff_exists'.mp seen
  obtain ⟨x, found, -⟩ := Option.map_eq_some_iff.mp seen
  have named := (List.forall_mem_append.mp (clashEntries_proper.names found)).2
  exact ⟨Gitignore.not_clashes_of_absolute named (by decide),
    Gitignore.not_clashes_of_absolute named (by decide)⟩

end SourcePages
