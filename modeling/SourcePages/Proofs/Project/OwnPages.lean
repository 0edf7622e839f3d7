import SourcePages.Proofs.Project.Accounts

/-!
Whether a project documents its own pages, over any number of runs, in a tree with links or without.
A page of an earlier run is found again exactly when it is selected below the root and the directory
of the pages does not keep it from the scan. The root itself is always entered, so that a project
whose pages go there finds them.
-/

namespace SourcePages

namespace Project

def after (p : Project) (t : FileTree) : Nat → FileTree
  | 0 => t
  | k + 1 => (p.generate (p.after t k)).tree

/-- Whether a run makes a page where there was nothing before. -/
def MakesPage (p : Project) (t : FileTree) (place : Location) : Prop :=
  t.top.seen? place = none ∧ ∃ d ∈ (p.generate t).report.documents, ∃ bytes,
    (p.generate t).tree.node? d.output = .ok (place, .file bytes)

def Returns (p : Project) (t : FileTree) (place : Location) : Prop :=
  ∃ f ∈ p.sources t, f.path.same place.path

/-- Whether the selectors and the filter let a file at some names below the root pass. -/
structure Selects (p : Project) (names : List String) : Prop where
  below : names ≠ []
  entered : ∀ above, above <+: names → above ≠ [] → above ≠ names →
    p.filter.ignores (relativeText above) true = false
  taken : anyTakes p.selectors (relativeText names) = true
  kept : p.filter.ignores (relativeText names) false = false

/-- Whether the directory of the pages is one below the root that holds a location. The scan does not
enter it then. -/
def Shields (p : Project) (t : FileTree) (root place : Location) : Prop :=
  ∃ out entries, t.node? p.config.outputRoot = .ok (out, .dir entries) ∧
    root <+: out ∧ root ≠ out ∧ out <+: place

theorem edited_generate (p : Project) (t : FileTree) : t.Edited (p.generate t).tree :=
  p.edited_processAll t _

theorem edited_after (p : Project) (t : FileTree) {k j : Nat} (le : k ≤ j) :
    (p.after t k).Edited (p.after t j) := by
  induction le with
  | refl => exact .refl _
  | step _ ih => exact ih.trans (p.edited_generate _)

section

variable {p : Project} {t : FileTree} {root place : Location} {names : List String}
  {entries : List (String × Node)} {bytes : List UInt8} (proper : t.top.Proper)
  (rooted : t.node? p.config.root = .ok (root, .dir entries))
  (file : t.top.seen? place = some (.file bytes))

include proper file

theorem picks_iff_shields (below : place = root ++ names) :
    p.Picks t root names ↔ p.Selects names ∧ ¬ p.Shields t root place := by
  subst below
  have whole := proper.names (Node.at?_of_seen_file file)
  constructor
  · intro picks
    refine ⟨⟨picks.below, picks.entered, picks.taken, picks.kept⟩, ?_⟩
    rintro ⟨out, inside, found, ⟨above, rfl⟩, other, higher⟩
    have dir := Node.seen?_of_at (FileTree.at?_of_node found)
    have path : t.canonical p.config.outputRoot = .ok (Location.path (root ++ above)) := by
      rw [FileTree.canonical, found]
      rfl
    refine picks.apart above ((List.prefix_append_right_inj root).mp higher) ?_ ?_ path
    · rintro rfl
      exact other (List.append_nil root).symm
    · rintro rfl
      rw [file] at dir
      cases dir
  · rintro ⟨selects, unshielded⟩
    refine ⟨selects.below, ⟨_, file, by simp⟩, ?_, selects.entered, selects.taken, selects.kept⟩
    rintro above ⟨rest, rfl⟩ filled other path
    obtain ⟨out, x, found, same⟩ := FileTree.node_of_canonical path
    have there := FileTree.at?_of_node found
    rw [← List.append_assoc] at whole file
    have named := (List.forall_mem_append.mp whole).1
    obtain rfl := Location.path_injective named (proper.names there) same
    obtain ⟨next, more, rfl⟩ : ∃ next more, rest = next :: more := by
      apply List.exists_cons_of_ne_nil
      rintro rfl
      exact other (List.append_nil above).symm
    have dir : t.top.seen? (root ++ above) = some .dir := by
      apply Node.seen_dir_of_below
      rw [file]
      exact Option.some_ne_none _
    obtain ⟨inside, rfl⟩ := Node.eq_dir_of_face (n := x) (by
      rw [Node.seen?_of_at there] at dir
      exact Option.some.inj dir)
    refine unshielded ⟨root ++ above, inside, found, List.prefix_append _ _, ?_, ?_⟩
    · intro same
      exact filled (List.self_eq_append_right.mp same)
    · rw [← List.append_assoc]
      exact List.prefix_append _ _

include rooted

theorem returns_iff : p.Returns t place ↔
    ∃ names, place = root ++ names ∧ p.Selects names ∧ ¬ p.Shields t root place := by
  have whole := proper.names (Node.at?_of_seen_file file)
  have rootProper := proper.names (FileTree.at?_of_node rooted)
  constructor
  · rintro ⟨f, member, same⟩
    obtain ⟨names, picks, rfl⟩ := (mem_sources_iff proper rooted).mp member
    have named := picks.named proper
    have steps := (Path.same_iff_steps.mp same).2
    rw [steps_path whole] at steps
    have below : place = root ++ names :=
      steps.symm.trans (steps_below rootProper named picks.below)
    exact ⟨names, below, (picks_iff_shields proper file below).mp picks⟩
  · rintro ⟨names, below, selects⟩
    have picks := (picks_iff_shields proper file below).mpr selects
    refine ⟨_, (mem_sources_iff proper rooted).mpr ⟨names, picks, rfl⟩, ?_⟩
    have named : ∀ name ∈ names, IsName name := by
      rw [below] at whole
      exact (List.forall_mem_append.mp whole).2
    apply Path.same_iff_steps.mpr
    rw [steps_path whole, below]
    exact ⟨(anchor_joined named picks.below).trans (anchor_path _).symm,
      steps_below rootProper named picks.below⟩

end

theorem up_walk_ne_file {n : Node} {followLast wantsDirectory : Bool} {budget : Nat}
    {here place : Location} {steps : List String} {bytes : List UInt8} :
    FileTree.walk n followLast budget here wantsDirectory (steps ++ [".."]) ≠
      .ok (.node place (.file bytes)) := by
  intro walked
  obtain ⟨mid, entries, left, dir, -, last⟩ := FileTree.walk_split (List.cons_ne_nil _ _) walked
  have above := Node.seen_dir_above (List.dropLast_prefix mid) (Node.seen?_of_at dir)
  obtain ⟨others, found⟩ := Node.at?_of_seen_dir above
  rw [FileTree.walk_up dir, FileTree.walk_nil found] at last
  simp [Node.isDir] at last

section

variable {p : Project} {t s : FileTree} {root out place : Location} {bytes : List UInt8}

theorem exists_source_of_document {d : Document} (member : d ∈ (p.generate t).report.documents) :
    ∃ f ∈ p.sources t, d.output = p.pageOf f := by
  obtain ⟨r, made, done⟩ := mem_documents.mp member
  have ended := mayEnd_of_mem_results made
  rw [done] at ended
  refine ⟨r.file, unique_subset (file_mem_of_mem_results made), ?_⟩
  cases ended
  rfl

theorem outputRoot_ne_empty (filled : p.config.root.text ≠ "") : p.config.outputRoot.text ≠ "" := by
  unfold Config.outputRoot Config.resolve
  split
  · rename_i absolute
    intro empty
    rw [Path.isAbsolute, empty] at absolute
    cases absolute
  · rename_i relative
    intro empty
    rw [Path.join, if_neg relative] at empty
    split at empty
    · exact filled (String.append_eq_empty_iff.mp empty).1
    · exact filled (String.append_eq_empty_iff.mp (String.append_eq_empty_iff.mp empty).1).1

theorem page_below {f : SourceFile} {entries others : List (String × Node)} (proper : t.top.Proper)
    (rooted : t.node? p.config.root = .ok (root, .dir entries)) (member : f ∈ p.sources t)
    (pages : s.node? p.config.outputRoot = .ok (out, .dir others))
    (free : (Node.dir others).LinkFree)
    (page : s.node? (p.pageOf f) = .ok (place, .file bytes)) : out <+: place := by
  obtain ⟨names, picks, rfl⟩ := (mem_sources_iff proper rooted).mp member
  obtain ⟨dirs, name, rfl⟩ := (List.eq_nil_or_concat' names).resolve_left picks.below
  have named := picks.named proper
  have filled : p.config.root.text ≠ "" := by
    intro empty
    rw [FileTree.node?, FileTree.resolve, if_pos empty] at rooted
    cases rooted
  obtain ⟨anchor, steps, -⟩ := pagePath_spec named _
  rw [List.append_assoc] at steps
  obtain ⟨mid, inside, left, first, second⟩ :=
    FileTree.node?_split (by simp) (outputRoot_ne_empty filled) anchor steps page
  obtain ⟨rfl, same⟩ := Prod.mk.inj (Except.ok.inj (pages.symm.trans first))
  have dir := FileTree.at?_of_node pages
  rcases pageFile_cases (named name (by simp)) with up | last
  · rw [up] at second
    exact absurd second up_walk_ne_file
  · have solid : ∀ below target, s.top.at? (out ++ below) ≠ some (.link target) := by
      intro below target link
      rw [Node.at?_append, dir, Option.bind_some] at link
      exact free.not_link link
    have plain : ∀ part ∈ dirs ++ [pageFile name], part ≠ ".." := by
      intro part member
      rcases List.mem_append.mp member with member | member
      · exact (named part (List.mem_append_left _ member)).not_up
      · rw [List.mem_singleton.mp member]
        exact last.not_up
    rw [FileTree.location_of_walk solid plain second]
    exact List.prefix_append _ _

theorem Returns.rooted {location : Location} {n : Node} (returns : p.Returns t place)
    (proper : t.top.Proper) (named : ∀ name ∈ place, IsName name)
    (root : t.node? p.config.root = .ok (location, n)) (other : location ≠ place) :
    ∃ entries, n = .dir entries := by
  obtain ⟨f, member, same⟩ := returns
  cases kind : n.isDir with
  | true =>
    cases n with
    | dir entries => exact ⟨entries, rfl⟩
    | file bytes => cases kind
    | link target => cases kind
  | false =>
    have steps := (Path.same_iff_steps.mp same).2
    rw [source_of_leaf root kind member, steps_path named,
      steps_path (proper.names (FileTree.at?_of_node root))] at steps
    exact absurd steps other

theorem MakesPage.stays (made : p.MakesPage t place) (grows : (p.generate t).tree.Grows s) :
    ∃ f ∈ p.sources t, ∃ bytes, s.node? (p.pageOf f) = .ok (place, .file bytes) := by
  obtain ⟨-, d, member, bytes, page⟩ := made
  obtain ⟨f, source, output⟩ := exists_source_of_document member
  obtain ⟨y, found, stays⟩ := grows.node? page
  rw [output] at found
  refine ⟨f, source, ?_⟩
  cases y with
  | file new => exact ⟨new, found⟩
  | link target => cases stays
  | dir entries => cases stays

end

end Project

theorem Project.makesPage_of_single {p : Project} {t s : FileTree} {f : SourceFile} {d : Document}
    {place : Location} {bytes : List UInt8} (sources : p.sources t = [f])
    (processed : p.process t f = (s, .ok d)) (fresh : t.top.seen? place = none)
    (page : s.node? d.output = .ok (place, .file bytes)) :
    (p.generate t).tree = s ∧ p.MakesPage t place := by
  have unique : p.unique t = [f] := by
    rw [unique, sources]
    rfl
  have ended : p.processAll t (p.unique t) = (s, [⟨f, .ok d⟩]) := by
    rw [unique, processAll_cons, processed]
    rfl
  have tree : (p.generate t).tree = s := congrArg Prod.fst ended
  have result : (⟨f, .ok d⟩ : Result) ∈ (p.processAll t (p.unique t)).2 := by
    rw [ended]
    exact List.mem_singleton_self _
  exact ⟨tree, fresh, d, mem_documents.mpr ⟨_, result, rfl⟩, bytes, by rwa [tree]⟩

/-- A page that a run has made is among the source files of a later one exactly when it is selected
below the root and the directory of the pages does not shield it. So it is never found where that
directory is below the root, other than the root, and has no links in it. -/
theorem own_page_returned_iff {p : Project} {t : FileTree} (proper : t.top.Proper)
    (home : t.top.seen? t.workingDir = some .dir) {k j : Nat} (later : k < j) {place : Location}
    (made : p.MakesPage (p.after t k) place) :
    (p.Returns (p.after t j) place ↔ ∃ root entries names,
      (p.after t j).node? p.config.root = .ok (root, .dir entries) ∧ place = root ++ names ∧
      p.Selects names ∧ ¬ p.Shields (p.after t j) root place) ∧
    ∀ root entries out others, (p.after t j).node? p.config.root = .ok (root, .dir entries) →
      (p.after t j).node? p.config.outputRoot = .ok (out, .dir others) →
      root <+: out → root ≠ out → (Node.dir others).LinkFree → ¬ p.Returns (p.after t j) place := by
  have homes : ∀ i, (p.after t i).top.seen? (p.after t i).workingDir = some .dir :=
    fun i => ((p.edited_after t (Nat.zero_le i)).grows home).home home
  have propers : ∀ i, (p.after t i).top.Proper :=
    fun i => (p.edited_after t (Nat.zero_le i)).proper proper
  have grows := (p.edited_after t later.le).grows (homes k)
  obtain ⟨f, source, bytes, page⟩ := made.stays ((p.edited_after t later).grows (homes (k + 1)))
  have there := FileTree.at?_of_node page
  have file := Node.seen?_of_at there
  -- The root was there when the page was made, so that it is not the page.
  obtain ⟨location, n, rootThen⟩ := Project.exists_root source
  obtain ⟨m, rootNow, stays⟩ := grows.node? rootThen
  have elsewhere : location ≠ place := by
    rintro rfl
    have fresh := made.1
    rw [Node.seen?_of_at (FileTree.at?_of_node rootThen)] at fresh
    cases fresh
  have found : p.Returns (p.after t j) place ↔ ∃ root entries names,
      (p.after t j).node? p.config.root = .ok (root, .dir entries) ∧ place = root ++ names ∧
      p.Selects names ∧ ¬ p.Shields (p.after t j) root place := by
    constructor
    · intro returns
      obtain ⟨entries, rfl⟩ := returns.rooted (propers j) ((propers j).names there) rootNow elsewhere
      obtain ⟨names, selected⟩ := (Project.returns_iff (propers j) rootNow file).mp returns
      exact ⟨location, entries, names, rootNow, selected⟩
    · rintro ⟨root, entries, names, rooted, selected⟩
      exact (Project.returns_iff (propers j) rooted file).mpr ⟨names, selected⟩
  refine ⟨found, ?_⟩
  intro root entries out others rooted pages inside other free returns
  obtain ⟨rfl, rfl⟩ := Prod.mk.inj (Except.ok.inj (rooted.symm.trans rootNow))
  obtain ⟨older, rfl⟩ := Node.eq_dir_of_face (stays.dir_iff.mp rfl)
  have below := Project.page_below (propers k) rootThen source pages free page
  obtain ⟨names, -, -, unshielded⟩ := (Project.returns_iff (propers j) rooted file).mp returns
  exact unshielded ⟨out, others, pages, inside, other, below⟩

def singleTree : FileTree := sampleTree [("a.ts", .file [])]

theorem singleTree_linkFree : singleTree.top.LinkFree := .single _ _

theorem singleTree_proper : singleTree.top.Proper := .single (by decide) _

theorem own_page_unreturned_single :
    sampleProject.MakesPage (sampleProject.after singleTree 0) ["docs", "a.md"] ∧
      ¬ sampleProject.Returns (sampleProject.after singleTree 1) ["docs", "a.md"] := by
  have h := Project.Grounded.of_node singleTree_linkFree sampleProject_ordinary sampleTree_rooted
  have sources : sampleProject.sources singleTree = [sourceAt [] ["a.ts"]] :=
    sampleProject_sources singleTree_linkFree rfl (by decide +kernel) (by decide +kernel)
  have sited := sited_of_mem_sources h singleTree_proper sampleTree_rooted
    (f := sourceAt [] ["a.ts"]) (by rw [sources]; exact List.mem_singleton_self _)
  have place : sampleProject.pagePlace [] (sourceAt [] ["a.ts"]) = ["docs", "a.md"] := by
    decide +kernel
  have steps : (sourceAt [] ["a.ts"]).path.steps = ["a.ts"] := by decide +kernel
  have clear : ¬ singleTree.top.Blocked ["docs"] := by
    rintro ⟨above, bytes, inside, file⟩
    have concat : above <+: [] ++ ["docs"] := inside
    rcases List.prefix_concat_iff.mp concat with same | top
    · rw [same] at file
      cases file
    · rw [List.prefix_nil.mp top] at file
      cases file
  have file : singleTree.top.seen? (sourceAt [] ["a.ts"]).path.steps = some (.file []) := by
    rw [steps]
    rfl
  obtain ⟨u, v, -, -, processed⟩ := Project.process_written h sited rfl file
    (by rw [place]; exact clear) (by decide +kernel) (by rw [place]; nofun)
  have run := Project.documents_process h sited rfl file
  rw [processed] at run
  obtain ⟨bytes, -, -, page⟩ := run.node?_output h (List.mem_singleton_self _) rfl sited
  rw [place] at page
  obtain ⟨tree, made⟩ := Project.makesPage_of_single sources processed rfl page
  refine ⟨made, ?_⟩
  have after := run.grounded h
  have now : sampleProject.after singleTree 1 = v := tree
  obtain ⟨entries, rooted⟩ := after.rooted
  have dir : v.top.seen? ["docs"] = some .dir := by
    have inside : v.top.seen? (["docs"] ++ "a.md" :: []) ≠ none := by
      rw [List.singleton_append, Node.seen?_of_at (FileTree.at?_of_node page)]
      exact Option.some_ne_none _
    exact Node.seen_dir_of_below inside
  obtain ⟨others, pages⟩ :=
    FileTree.node?_passes after.filled_outputRoot (after.passes_outputRoot dir)
  have unreturned := (own_page_returned_iff singleTree_proper rfl Nat.zero_lt_one made).2
  rw [now] at unreturned ⊢
  exact unreturned [] entries ["docs"] others rooted pages List.nil_prefix (by decide)
    (run.linkFree.below (FileTree.at?_of_node pages))

def flatProject : Project :=
  { sampleProject with config := { sampleProject.config with outputDir := ⟨"."⟩ } }

theorem flat_outputRoot : ∃ entries,
    singleTree.node? flatProject.config.outputRoot = .ok ([], .dir entries) := by
  have steps : flatProject.config.outputRoot.steps = [] := by decide
  apply FileTree.node?_passes (by decide)
  rw [steps, FileTree.start, singleTree, sampleTree, ite_self]
  exact .done rfl

theorem flat_sources : flatProject.sources singleTree = [sourceAt [] ["a.ts"]] := by
  obtain ⟨entries, pages⟩ := flat_outputRoot
  have rules : flatProject.scanRules singleTree (Location.path []) =
      ⟨Location.path [], Location.path [], sampleProject.selectors, sampleProject.filter⟩ := by
    rw [Project.scanRules, FileTree.canonical, pages]
    rfl
  have rooted : singleTree.node? flatProject.config.root = .ok ([], singleTree.top) :=
    sampleTree_rooted
  have found : (flatProject.scan singleTree).files = [sourceAt [] ["a.ts"]] := by
    rw [Project.files_scan rooted, rules]
    decide +kernel
  rw [Project.sources, sortFiles, found, List.mergeSort_singleton]

theorem flat_makesPage : flatProject.MakesPage singleTree ["a.md"] := by
  have source : singleTree.Leads (sourceAt [] ["a.ts"]).path [] ([] ++ ["a.ts"]) :=
    sampleTree_leads (List.forall_mem_singleton.mpr (by decide)) (by decide +kernel)
      ⟨[[]], by decide +kernel⟩
  have target : singleTree.Leads (flatProject.pageOf (sourceAt [] ["a.ts"])) [] ([] ++ ["a.md"]) :=
    sampleTree_leads (List.forall_mem_singleton.mpr (by decide)) (by decide +kernel)
      ⟨[['.'], ['.']], by decide +kernel⟩
  have read : singleTree.read (sourceAt [] ["a.ts"]).path = .ok [] :=
    source.read_eq singleTree_linkFree rfl
  obtain ⟨q, parent, above⟩ := target.parent
  have made := FileTree.makeDirectories_there (above.passes_there rfl)
  have vacant : singleTree.top.seen? ([] ++ [] ++ ["a.md"]) ≠ some .dir := nofun
  have written := target.write_eq singleTree_linkFree rfl vacant
    (flatProject.pageBytes (sourceAt [] ["a.ts"]) [])
  have processed := Project.process_ok read rfl ((writePage_made parent made _).1 _ written)
  have filed : singleTree.Filed _ ["a.md"] (flatProject.pageBytes (sourceAt [] ["a.ts"]) []) :=
    .put rfl vacant
  have page := (target.mono filed.workingDir fun place dir => by
    rw [filed.seen, dir, if_neg]
    rintro rfl
    cases dir).node?_found (filed.linkFree singleTree_linkFree)
      (Node.at?_of_seen_file (by rw [filed.seen]; exact if_pos rfl))
  exact (Project.makesPage_of_single flat_sources processed rfl page).2

/-- The page of the first run is a source file of the second. -/
theorem flat_page_returned :
    singleTree.top.Proper ∧ singleTree.top.seen? singleTree.workingDir = some .dir ∧
      flatProject.MakesPage (flatProject.after singleTree 0) ["a.md"] ∧
      flatProject.Returns (flatProject.after singleTree 1) ["a.md"] := by
  have home : singleTree.top.seen? singleTree.workingDir = some .dir := rfl
  have grows := (flatProject.edited_generate singleTree).grows home
  have proper := (flatProject.edited_generate singleTree).proper singleTree_proper
  refine ⟨singleTree_proper, home, flat_makesPage, ?_⟩
  obtain ⟨f, -, bytes, page⟩ := flat_makesPage.stays (.refl _)
  have file := Node.seen?_of_at (FileTree.at?_of_node page)
  have root : singleTree.node? flatProject.config.root = .ok ([], singleTree.top) :=
    sampleTree_rooted
  obtain ⟨entries, rooted⟩ := grows.node?_dir root
  obtain ⟨before, pages⟩ := flat_outputRoot
  obtain ⟨others, pages⟩ := grows.node?_dir pages
  apply (Project.returns_iff proper rooted file).mpr
  refine ⟨["a.md"], rfl, ⟨by decide, ?_, by decide +kernel, by decide +kernel⟩, ?_⟩
  · intro above inside filled other
    have concat : above <+: [] ++ ["a.md"] := inside
    rcases List.prefix_concat_iff.mp concat with same | top
    · exact absurd same other
    · exact absurd (List.prefix_nil.mp top) filled
  · rintro ⟨out, inside, found, -, other, -⟩
    rw [pages] at found
    exact other (Prod.mk.inj (Except.ok.inj found)).1

end SourcePages
