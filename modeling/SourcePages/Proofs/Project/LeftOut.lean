import SourcePages.Proofs.Filter.Ignore
import SourcePages.Proofs.Project.Generate
import SourcePages.Proofs.Project.Loading

namespace SourcePages

def Project.skipping (p : Project) (skip : Bool) : Project :=
  { p with
    config := { p.config with skipDeps := skip }
    filter := { p.filter with dependencies := skippedPatterns skip } }

section

variable {names : List String} (named : ∀ name ∈ names, IsName name) (listed : names ≠ [])

include named listed

theorem pathSegments_relativeText : pathSegments (relativeText names) = names.map String.toList := by
  rw [pathSegments, relativeText, toList_joinWith_slash, split_names named listed]

theorem segments_relativeText : Text.segments (relativeText names) = names := by
  have pieces := congrArg (List.map String.ofList) (pathSegments_relativeText named listed)
  rw [List.map_map] at pieces
  exact pieces.trans (by simp [Function.comp_def])

theorem hasName_relativeText : Glob.hasName (relativeText names) = true := by
  obtain ⟨before, last, rfl⟩ := (List.eq_nil_or_concat' names).resolve_left listed
  have whole := pathSegments_relativeText named listed
  obtain ⟨filled, -, other, -⟩ := named last (by simp)
  have ends : (pathSegments (relativeText (before ++ [last]))).getLast? = some last.toList := by
    simp [whole]
  refine hasName_of_last ends ?_ ?_
  · simpa using filled
  · exact fun same => other (String.toList_inj.mp (same.trans (by decide)))

theorem belowDependency_iff : belowDependency (relativeText names) = true ↔
    ∃ name ∈ names.dropLast, name ∈ dependencyDirectories := by
  simp [belowDependency, segments_relativeText named listed, List.any_eq_true]

theorem belowDependency_of_above {above : List String} (inside : above <+: names)
    (filled : above ≠ []) (below : belowDependency (relativeText above) = true) :
    belowDependency (relativeText names) = true := by
  have named' : ∀ name ∈ above, IsName name := fun name member => named name (inside.subset member)
  obtain ⟨name, member, dependency⟩ := (belowDependency_iff named' filled).mp below
  obtain ⟨before, behind, rfl, more⟩ := mem_dropLast.mp member
  obtain ⟨rest, rfl⟩ := inside
  refine (belowDependency_iff named listed).mpr ⟨name, mem_dropLast.mpr ?_, dependency⟩
  exact ⟨before, behind ++ rest, by simp, by simp [more]⟩

end

namespace Project

section

variable {p : Project} {t : FileTree} (proper : t.top.Proper)

include proper

theorem picks_skipping {root : Location} {names : List String} :
    (p.skipping true).Picks t root names ↔
      (p.skipping false).Picks t root names ∧ belowDependency (relativeText names) = false := by
  have ignores : ∀ path isDirectory, (p.skipping true).filter.ignores path isDirectory = false ↔
      belowDependency path = false ∧ (p.skipping false).filter.ignores path isDirectory = false := by
    intro path isDirectory
    rw [skipping, ignores_dependencies, Bool.or_eq_false_iff]
    rfl
  constructor
  · rintro ⟨below, there, apart, entered, taken, kept⟩
    obtain ⟨outside, kept⟩ := (ignores _ _).mp kept
    exact ⟨⟨below, there, apart, fun above inside filled other =>
      ((ignores _ _).mp (entered above inside filled other)).2, taken, kept⟩, outside⟩
  · rintro ⟨picks, outside⟩
    have named := picks.named proper
    refine ⟨picks.below, picks.there, picks.apart, fun above inside filled other => ?_, picks.taken,
      (ignores _ _).mpr ⟨outside, picks.kept⟩⟩
    refine (ignores _ _).mpr ⟨?_, picks.entered above inside filled other⟩
    rw [← Bool.not_eq_true]
    intro below
    rw [belowDependency_of_above named picks.below inside filled below] at outside
    cases outside

theorem mem_sources_skipping {f : SourceFile} : f ∈ (p.skipping true).sources t ↔
    f ∈ (p.skipping false).sources t ∧ belowDependency f.relative = false := by
  cases place : t.node? p.config.root with
  | error fault =>
    have none : ∀ skip, f ∉ (p.skipping skip).sources t := by
      intro skip member
      obtain ⟨location, n, found⟩ := exists_root member
      cases place.symm.trans found
    simp [none]
  | ok found =>
    obtain ⟨location, n⟩ := found
    cases kind : n.isDir with
    | false =>
      have outside : belowDependency (relativeText []) = false := by decide
      rw [mem_sources_leaf (p := p.skipping true) place kind,
        mem_sources_leaf (p := p.skipping false) place kind, skipping, ignores_dependencies, outside,
        Bool.false_or]
      constructor
      · rintro ⟨taken, kept, rfl⟩
        exact ⟨⟨taken, kept, rfl⟩, outside⟩
      · exact And.left
    | true =>
      rw [n.isDir_eq_face, decide_eq_true_eq] at kind
      obtain ⟨entries, rfl⟩ := Node.eq_dir_of_face kind
      rw [mem_sources_iff (p := p.skipping true) proper place,
        mem_sources_iff (p := p.skipping false) proper place]
      simp only [picks_skipping proper]
      constructor
      · rintro ⟨names, ⟨picks, outside⟩, rfl⟩
        exact ⟨⟨names, picks, rfl⟩, outside⟩
      · rintro ⟨⟨names, picks, rfl⟩, outside⟩
        exact ⟨names, ⟨picks, outside⟩, rfl⟩

theorem sources_skipping : (p.skipping true).sources t =
    ((p.skipping false).sources t).filter fun f => !belowDependency f.relative := by
  refine sorted_ext (sources_sorted proper) ((sources_sorted proper).filter _) fun f => ?_
  rw [mem_sources_skipping proper, List.mem_filter, Bool.not_eq_true']

end

theorem loadWith_skipping [Glob.Engine] {t : FileTree} {c : Config} {repository : Repository}
    {patterns : List String} (skip : Bool) :
    loadWith t { c with skipDeps := skip } repository patterns =
      (loadWith t c repository patterns).map (·.skipping skip) := by
  have rules : loadGitignore t { c with skipDeps := skip } = loadGitignore t c := rfl
  simp only [loadWith, IgnoreFilter.load, rules, readIgnores_skipped]
  cases readSelectors patterns with
  | error e => rfl
  | ok selectors =>
    cases loadGitignore t c with
    | error e => rfl
    | ok gitignore => cases readIgnores c.ignores <;> rfl

theorem load_skipping [Glob.Engine] {t : FileTree} {c : Config} (skip : Bool) :
    load t { c with skipDeps := skip } = (load t c).map (·.skipping skip) := by
  let path := c.resolve c.packageFile
  change (readPackage t path >>= fun package => package.repository path >>= fun repository =>
      patternsOf t c >>= fun patterns => loadWith t { c with skipDeps := skip } repository patterns) =
    (readPackage t path >>= fun package => package.repository path >>= fun repository =>
      patternsOf t c >>= fun patterns => loadWith t c repository patterns).map (·.skipping skip)
  cases readPackage t path with
  | error fault => rfl
  | ok package =>
    cases found : package.repository path with
    | error fault => simp only [ok_bind, found]; rfl
    | ok repository =>
      cases patternsOf t c with
      | error fault => simp only [ok_bind, found]; rfl
      | ok patterns =>
        simp only [ok_bind, found]
        exact loadWith_skipping (c := c) skip

end Project

/-- Skipping dependencies takes from the sources of a project those that are below a directory of
dependencies or builds, and no others. -/
theorem skipDeps_exact [Glob.Engine] {s t : FileTree} (proper : t.top.Proper) (c : Config) :
    (∀ repository patterns,
      (Project.loadWith s { c with skipDeps := true } repository patterns).map (·.sources t) =
        (Project.loadWith s { c with skipDeps := false } repository patterns).map fun p =>
          (p.sources t).filter fun f => !belowDependency f.relative) ∧
    (Project.load s { c with skipDeps := true }).map (·.sources t) =
      (Project.load s { c with skipDeps := false }).map fun p =>
        (p.sources t).filter fun f => !belowDependency f.relative := by
  have each : ∀ loaded : Except ConfigFault Project,
      (loaded.map (·.skipping true)).map (·.sources t) =
        (loaded.map (·.skipping false)).map fun p =>
          (p.sources t).filter fun f => !belowDependency f.relative := by
    intro loaded
    cases loaded with
    | error fault => rfl
    | ok p => exact congrArg Except.ok (Project.sources_skipping proper)
  refine ⟨fun repository patterns => ?_, ?_⟩
  · rw [Project.loadWith_skipping (c := c) true, each, Project.loadWith_skipping (c := c) false]
  · rw [Project.load_skipping (c := c) true, each, Project.load_skipping (c := c) false]

def builtEntries : List (String × Node) :=
  [("dist", .dir [("a.ts", .file [])]), ("distant", .dir [("dist", .file [])])]

theorem builtEntries_linkFree : (Node.dir builtEntries).LinkFree := by
  refine .dir (List.forall_mem_cons.mpr ⟨.single _ _, ?_⟩)
  exact List.forall_mem_singleton.mpr (.single _ _)

theorem builtEntries_proper : (Node.dir builtEntries).Proper := by
  refine .dir (by decide) (by decide) (List.forall_mem_cons.mpr ⟨.single (by decide) _, ?_⟩)
  exact List.forall_mem_singleton.mpr (.single (by decide) _)

theorem skipDeps_exact_built :
    (Project.loadWith (sampleTree builtEntries) { skipDeps := true } ⟨"", none⟩ ["**"]).map
        (·.sources (sampleTree builtEntries)) = .ok [sourceAt [] ["distant", "dist"]] := by
  have loaded : Project.loadWith (sampleTree builtEntries) {} ⟨"", none⟩ ["**"] =
      .ok sampleProject := rfl
  have sources : sampleProject.sources (sampleTree builtEntries) =
      [sourceAt [] ["dist", "a.ts"], sourceAt [] ["distant", "dist"]] :=
    sampleProject_sources builtEntries_linkFree rfl (by decide +kernel) (by decide +kernel)
  obtain ⟨exact, -⟩ := skipDeps_exact (s := sampleTree builtEntries) (t := sampleTree builtEntries)
    builtEntries_proper {}
  rw [exact, loaded]
  refine congrArg Except.ok ?_
  dsimp only
  rw [sources]
  decide +kernel

namespace Project

theorem exists_names_of_source {p : Project} {t : FileTree} {f : SourceFile} (proper : t.top.Proper)
    (member : f ∈ p.sources t) : ∃ names, (∀ name ∈ names, IsName name) ∧
      anyTakes p.selectors (relativeText names) = true ∧
      p.filter.ignores (relativeText names) false = false := by
  obtain ⟨location, n, place⟩ := exists_root member
  cases kind : n.isDir with
  | false =>
    obtain ⟨taken, kept, -⟩ := (mem_sources_leaf place kind).mp member
    exact ⟨[], nofun, taken, kept⟩
  | true =>
    rw [n.isDir_eq_face, decide_eq_true_eq] at kind
    obtain ⟨entries, rfl⟩ := Node.eq_dir_of_face kind
    obtain ⟨names, picks, -⟩ := (mem_sources_iff proper place).mp member
    exact ⟨names, picks.named proper, picks.taken, picks.kept⟩

end Project

/-- What a pattern selects it leaves out as well, so that a project with the same pattern for both
has no sources. -/
theorem selected_pattern_ignores [Glob.Engine] {text : String} (bare : ¬ "./".toList <+: text.toList) :
    (∀ (t : FileTree) (c : Config) (selectors : List Selector) (filter : IgnoreFilter),
      text ∈ c.ignores → readSelectors [text] = .ok selectors → IgnoreFilter.load t c = .ok filter →
      ∀ path, (∀ name ∈ pathSegments path, name ≠ []) → path.toList.getLast? ≠ some '.' →
        anyTakes selectors path = true → filter.ignores path false = true) ∧
    ∀ (s t : FileTree) (c : Config) (p : Project), text ∈ c.ignores →
      ((∃ repository, Project.loadWith s c repository [text] = .ok p) ∨
        (Project.patternsOf s c = .ok [text] ∧ Project.load s c = .ok p)) →
      t.top.Proper → p.sources t = [] := by
  refine ⟨fun t c selectors filter member selected loaded path filled ends taken => ?_,
    fun s t c p member loaded proper => ?_⟩
  · exact ignores_of_anyTakes bare selected (IgnoreFilter.load_ok_iff.mp loaded).2.1 member
      (fun _ => hasName_of_filled filled ends) taken false
  · obtain ⟨repository, loaded⟩ : ∃ repository, Project.loadWith s c repository [text] = .ok p := by
      rcases loaded with given | ⟨only, loaded⟩
      · exact given
      · obtain ⟨repository, patterns, selected, loaded⟩ := Project.load_ok loaded
        obtain rfl := Except.ok.inj (only.symm.trans selected)
        exact ⟨repository, loaded⟩
    obtain ⟨selected, filter, -⟩ := Project.loadWith_ok_iff.mp loaded
    refine List.eq_nil_iff_forall_not_mem.mpr fun f source => ?_
    obtain ⟨names, named, taken, kept⟩ := Project.exists_names_of_source proper source
    have atName : relativeText names ≠ "" → Glob.hasName (relativeText names) = true := by
      intro filled
      refine hasName_relativeText named ?_
      rintro rfl
      exact filled rfl
    have left := ignores_of_anyTakes bare selected (IgnoreFilter.load_ok_iff.mp filter).2.1 member atName
      taken
    rw [left] at kept
    cases kept

theorem selected_pattern_ignores_grouped : ∃ p, Project.loadWith (sampleTree builtEntries)
      { ignores := ["{dist,**}/[!.]*"] } ⟨"", none⟩ ["{dist,**}/[!.]*"] = .ok p ∧
    anyTakes p.selectors "dist/a.ts" = true ∧ p.filter.ignores "dist/a.ts" false = true ∧
    p.sources (sampleTree builtEntries) = [] := by
  have bare : ¬ "./".toList <+: "{dist,**}/[!.]*".toList := by decide
  obtain ⟨forPaths, forTrees⟩ := selected_pattern_ignores bare
  have taken : ∀ selectors, readSelectors ["{dist,**}/[!.]*"] = .ok selectors →
      anyTakes selectors "dist/a.ts" = true := by
    intro selectors read
    cases read
    decide +kernel
  obtain ⟨p, loaded⟩ : ∃ p, Project.loadWith (sampleTree builtEntries)
      { ignores := ["{dist,**}/[!.]*"] } ⟨"", none⟩ ["{dist,**}/[!.]*"] = .ok p := ⟨_, rfl⟩
  obtain ⟨selected, filter, -⟩ := Project.loadWith_ok_iff.mp loaded
  have among : "{dist,**}/[!.]*" ∈ ({ ignores := ["{dist,**}/[!.]*"] } : Config).ignores :=
    List.mem_singleton_self _
  have here := taken _ selected
  exact ⟨p, loaded, here,
    forPaths _ _ _ _ among selected filter "dist/a.ts" (by decide) (by decide) here,
    forTrees _ _ _ _ among (.inl ⟨_, loaded⟩) builtEntries_proper⟩

end SourcePages
