import SourcePages.Proofs.Project.Collisions

namespace SourcePages

namespace Project

/-- What becomes of a tree when files are documented. -/
structure Documents (p : Project) (root : Location) (t s : FileTree) (results : List Result) :
    Prop where
  workingDir : s.workingDir = t.workingDir
  linkFree : s.top.LinkFree
  grown : ∀ place, t.top.seen? place = some .dir → s.top.seen? place = some .dir
  written : ∀ r ∈ results, ∀ d, r.outcome = .ok d → p.HasPage r.file ∧
    ∃ bytes, t.top.seen? r.file.path.steps = some (.file bytes) ∧ d = p.documentOf r.file bytes ∧
      s.top.seen? (p.pagePlace root r.file) = some (.file (p.pageBytes r.file bytes))
  kept : ∀ place bytes, t.top.seen? place = some (.file bytes) →
    (∀ r ∈ results, ∀ d, r.outcome = .ok d → place ≠ p.pagePlace root r.file) →
    s.top.seen? place = some (.file bytes)
  found : ∀ place bytes, s.top.seen? place = some (.file bytes) →
    t.top.seen? place = some (.file bytes) ∨
      ∃ r ∈ results, ∃ d, r.outcome = .ok d ∧ place = p.pagePlace root r.file

section

variable {p : Project} {t s u : FileTree} {root : Location} {out : List String} {f : SourceFile}

theorem Documents.refl (free : t.top.LinkFree) : p.Documents root t t [] :=
  ⟨rfl, free, fun _ dir => dir, by simp, fun _ _ file _ => file, fun _ _ file => .inl file⟩

theorem Documents.of_error (same : s.workingDir = t.workingDir) (free : s.top.LinkFree)
    (grown : ∀ place, t.top.seen? place = some .dir → s.top.seen? place = some .dir)
    (files : ∀ place bytes,
      s.top.seen? place = some (.file bytes) ↔ t.top.seen? place = some (.file bytes))
    (e : FileFault) : p.Documents root t s [⟨f, .error e⟩] := by
  refine ⟨same, free, grown, ?_, ?_, ?_⟩
  · intro r member d done
    rw [List.mem_singleton.mp member] at done
    cases done
  · exact fun place bytes file _ => (files place bytes).mpr file
  · exact fun place bytes file => .inl ((files place bytes).mp file)

theorem documents_process (h : p.Grounded t root out) (sited : Sited s root out f)
    (wet : p.config.dryRun = false)
    {bytes : List UInt8} (file : t.top.seen? f.path.steps = some (.file bytes)) :
    p.Documents root t (p.process t f).1 [⟨f, (p.process t f).2⟩] := by
  by_cases blocked : t.top.Blocked (p.pagePlace root f).dropLast
  · obtain ⟨q, -, stopped⟩ := process_stopped h sited wet file blocked
    rw [stopped]
    exact .of_error rfl h.free (fun _ dir => dir) (fun _ _ => Iff.rfl) _
  · by_cases taken : p.HasPage f → t.top.seen? (p.pagePlace root f) = some .dir
    · obtain ⟨u, opened, refused⟩ := process_refused h sited wet file blocked taken
      rw [refused]
      exact .of_error opened.workingDir (opened.linkFree h.free) (fun _ => opened.grown)
        (fun _ _ => opened.file_iff blocked) _
    · obtain ⟨named, free⟩ := Classical.not_imp.mp taken
      obtain ⟨u, v, opened, filed, written⟩ := process_written h sited wet file blocked named free
      rw [written]
      refine ⟨filed.workingDir.trans opened.workingDir, filed.linkFree (opened.linkFree h.free),
        ?_, ?_, ?_, ?_⟩
      · intro place dir
        have other : place ≠ p.pagePlace root f := by
          rintro rfl
          exact free dir
        rw [filed.seen, if_neg other]
        exact opened.grown dir
      · intro r member d done
        rw [List.mem_singleton.mp member] at done ⊢
        cases done
        exact ⟨named, bytes, file, rfl, by rw [filed.seen, if_pos rfl]⟩
      · intro place old file apart
        have other := apart _ (List.mem_singleton.mpr rfl) _ rfl
        rw [filed.seen, if_neg other]
        exact (opened.file_iff blocked).mpr file
      · intro place new file
        by_cases own : place = p.pagePlace root f
        · exact .inr ⟨_, List.mem_singleton.mpr rfl, _, rfl, own⟩
        · rw [filed.seen, if_neg own] at file
          exact .inl ((opened.file_iff blocked).mp file)

theorem source_process (h : p.Grounded t root out) (own : Sited s root out f)
    (wet : p.config.dryRun = false) {bytes : List UInt8}
    (file : t.top.seen? f.path.steps = some (.file bytes)) {g : SourceFile}
    (other : Sited s root out g) {others : List UInt8}
    (there : t.top.seen? g.path.steps = some (.file others)) :
    (p.process t f).1.top.seen? g.path.steps = some (.file others) := by
  apply (documents_process h own wet file).kept _ _ there
  intro r member d done
  rw [List.mem_singleton.mp member]
  exact h.source_ne_page other own

theorem Documents.cons {r : Result} {results : List Result} (first : p.Documents root t u [r])
    (later : p.Documents root u s results)
    (apart : ∀ next ∈ results, p.pagePlace root r.file ≠ p.pagePlace root next.file)
    (sources : ∀ next ∈ results, next.file.path.steps ≠ p.pagePlace root r.file) :
    p.Documents root t s (r :: results) := by
  refine ⟨later.workingDir.trans first.workingDir, later.linkFree,
    fun place dir => later.grown place (first.grown place dir), ?_, ?_, ?_⟩
  · intro next member d done
    rcases List.mem_cons.mp member with rfl | member
    · obtain ⟨named, bytes, file, document, page⟩ :=
        first.written next (List.mem_singleton.mpr rfl) d done
      refine ⟨named, bytes, file, document, later.kept _ _ page ?_⟩
      exact fun other inside _ _ => apart other inside
    · obtain ⟨named, bytes, file, document, page⟩ := later.written next member d done
      refine ⟨named, bytes, ?_, document, page⟩
      rcases first.found _ _ file with before | ⟨own, inside, -, -, place⟩
      · exact before
      · rw [List.mem_singleton.mp inside] at place
        exact absurd place (sources next member)
  · intro place bytes file others
    apply later.kept place bytes
    · apply first.kept place bytes file
      intro own inside
      rw [List.mem_singleton.mp inside]
      exact others r List.mem_cons_self
    · exact fun next member => others next (List.mem_cons_of_mem _ member)
  · intro place bytes file
    rcases later.found place bytes file with before | ⟨next, member, d, done, place⟩
    · rcases first.found _ _ before with old | ⟨own, inside, d, done, place⟩
      · exact .inl old
      · rw [List.mem_singleton.mp inside] at done place
        exact .inr ⟨r, List.mem_cons_self, d, done, place⟩
    · exact .inr ⟨next, List.mem_cons_of_mem _ member, d, done, place⟩

theorem processAll_cons (p : Project) (t : FileTree) (f : SourceFile) (rest : List SourceFile) :
    p.processAll t (f :: rest) = ((p.processAll (p.process t f).1 rest).1,
      ⟨f, (p.process t f).2⟩ :: (p.processAll (p.process t f).1 rest).2) := rfl

theorem edited_processAll (p : Project) (t : FileTree) (files : List SourceFile) :
    t.Edited (p.processAll t files).1 := by
  induction files generalizing t with
  | nil => exact .refl t
  | cons f rest ih =>
    rw [processAll_cons]
    exact (p.edited_process t f).trans (ih _)

theorem processAll_files (p : Project) (t : FileTree) (files : List SourceFile) :
    (p.processAll t files).2.map (·.file) = files := by
  induction files generalizing t with
  | nil => rfl
  | cons f rest ih => rw [processAll_cons, List.map_cons, ih]

theorem file_mem_of_mem_results {files : List SourceFile} {r : Result}
    (member : r ∈ (p.processAll t files).2) : r.file ∈ files := by
  rw [← processAll_files p t files]
  exact List.mem_map_of_mem member

theorem documents_processAll (h : p.Grounded t root out) (wet : p.config.dryRun = false)
    {files : List SourceFile} (sited : ∀ f ∈ files, Sited s root out f)
    (places : files.Pairwise fun f g => p.pagePlace root f ≠ p.pagePlace root g)
    (sources : ∀ f ∈ files, ∃ bytes, t.top.seen? f.path.steps = some (.file bytes)) :
    p.Documents root t (p.processAll t files).1 (p.processAll t files).2 := by
  -- The tree changes along the run; the sites of the files are those of the tree at the start.
  induction files generalizing t with
  | nil => exact .refl h.free
  | cons f rest ih =>
    obtain ⟨apart, places⟩ := List.pairwise_cons.mp places
    have own := sited f List.mem_cons_self
    have others : ∀ g ∈ rest, Sited s root out g :=
      fun g member => sited g (List.mem_cons_of_mem _ member)
    obtain ⟨bytes, file⟩ := sources f List.mem_cons_self
    have first := documents_process h own wet file
    have grounded := h.mono first.linkFree first.workingDir first.grown
    have later := ih grounded others places fun g member => by
      obtain ⟨bytes, there⟩ := sources g (List.mem_cons_of_mem _ member)
      exact ⟨bytes, source_process h own wet file (others g member) there⟩
    apply first.cons later
    · exact fun next inside => apart _ (file_mem_of_mem_results inside)
    · exact fun next inside => h.source_ne_page (others _ (file_mem_of_mem_results inside)) own

theorem mem_documents {files : List SourceFile} {split : Split} {results : List Result}
    {d : Document} : d ∈ (p.report files split results).documents ↔
      ∃ r ∈ results, r.outcome = .ok d := by
  have one : ∀ r : Result, r.document? = some d ↔ r.outcome = .ok d := by
    intro r
    unfold Result.document?
    split <;> simp_all
  simp only [report, List.mem_filterMap, one]

theorem documentOf_counts (p : Project) (f : SourceFile) (bytes : List UInt8) :
    (p.documentOf f bytes).units = (extract (sourceText bytes)).length ∧
      (p.documentOf f bytes).types = countKind .type (extract (sourceText bytes)) ∧
      (p.documentOf f bytes).functions = countKind .function (extract (sourceText bytes)) := by
  refine ⟨rfl, rfl, ?_⟩
  have sum := countKind_add (extract (sourceText bytes))
  simp only [documentOf, Document.ofUnits]
  omega

namespace Documents

variable {results : List Result} (run : p.Documents root t s results) (h : p.Grounded t root out)

include run

theorem file_iff {place : Location} {bytes : List UInt8}
    (other : ∀ r ∈ results, ∀ d, r.outcome = .ok d → place ≠ p.pagePlace root r.file) :
    s.top.seen? place = some (.file bytes) ↔ t.top.seen? place = some (.file bytes) := by
  constructor
  · intro file
    rcases run.found place bytes file with before | ⟨r, made, d, done, same⟩
    · exact before
    · exact absurd same (other r made d done)
  · exact fun file => run.kept place bytes file other

include h

theorem grounded : p.Grounded s root out := h.mono run.linkFree run.workingDir run.grown

theorem node?_output {r : Result} (member : r ∈ results) {d : Document} (done : r.outcome = .ok d)
    (sited : Sited u root out r.file) :
    ∃ bytes, t.top.seen? r.file.path.steps = some (.file bytes) ∧ d = p.documentOf r.file bytes ∧
      s.node? d.output = .ok (p.pagePlace root r.file, .file (p.pageBytes r.file bytes)) := by
  obtain ⟨named, bytes, file, document, page⟩ := run.written r member d done
  obtain ⟨dirs, name, site⟩ := sited
  have after := run.grounded h
  have leads := after.page_leads site (h.isName_pageFile site named)
  refine ⟨bytes, file, document, ?_⟩
  rw [h.pagePlace_eq site, List.append_assoc] at page ⊢
  rw [document]
  exact leads.node?_found after.free (Node.at?_of_seen_file page)

end Documents

end

end Project

theorem sampleProject_ordinary : sampleProject.config.outputDir.Ordinary := by
  have components : sampleProject.config.outputDir.components = [.normal "docs"] := by decide
  rw [Path.Ordinary, components]
  refine ⟨List.cons_ne_nil _ _, ?_⟩
  intro c member
  exact ⟨"docs", List.mem_singleton.mp member⟩

theorem sampleTree_leads {entries : List (String × Node)} {p : Path} {before : List String}
    {last : String} (named : ∀ name ∈ before ++ [last], IsName name)
    (steps : p.steps = before ++ [last]) (ends : p.EndsIn last) :
    (sampleTree entries).Leads p [] (before ++ [last]) := by
  refine ⟨⟨[], steps, ?_⟩, named, ?_⟩
  · rw [FileTree.start, sampleTree, ite_self]
    exact .done rfl
  · intro front name split
    obtain ⟨-, same⟩ := List.append_inj' split rfl
    cases same
    exact ends

section

variable {entries : List (String × Node)} (free : (Node.dir entries).LinkFree)
  (fresh : entries.lookup "docs" = none)

include free fresh

theorem sampleTree_canonical :
    (sampleTree entries).canonical sampleProject.config.outputRoot = .error .notFound := by
  have leads : (sampleTree entries).Leads sampleProject.config.outputRoot [] ([] ++ ["docs"]) :=
    sampleTree_leads (List.forall_mem_singleton.mpr (by decide)) (by decide) ⟨[['.']], by decide⟩
  have clear : ¬ (sampleTree entries).top.Blocked ([] ++ []) := Node.not_blocked_of_dir rfl
  have missing : (sampleTree entries).top.seen? ([] ++ ([] ++ ["docs"])) = none := by
    rw [List.nil_append, List.nil_append, sampleTree, Node.seen?_dir_cons, fresh, Option.bind_none]
  rw [FileTree.canonical, leads.node?_missing free clear missing]
  rfl

theorem sampleProject_sources {files : List SourceFile}
    (scanned : (ScanRules.scanEntries ⟨Location.path [], ⟨"./docs"⟩, sampleProject.selectors,
      sampleProject.filter⟩ [] entries).files = files)
    (sorted : files.Pairwise fun a b => ¬ b.relative < a.relative) :
    sampleProject.sources (sampleTree entries) = files := by
  have output : sampleProject.config.outputRoot = ⟨"./docs"⟩ := by decide
  have canonical := sampleTree_canonical free fresh
  rw [output] at canonical
  have rules : sampleProject.scanRules (sampleTree entries) (Location.path []) =
      ⟨Location.path [], ⟨"./docs"⟩, sampleProject.selectors, sampleProject.filter⟩ := by
    rw [Project.scanRules, output, canonical]
  have found : (sampleProject.scan (sampleTree entries)).files = files := by
    rw [Project.scan, sampleTree_rooted]
    simp only [rules, ScanRules.scanRoot, Scan.append, scanned, List.nil_append]
  rw [Project.sources, sortFiles, found]
  apply List.mergeSort_of_pairwise
  exact sorted.imp fun before => by simpa using before

end

def documentedSource : List UInt8 :=
  Text.encode "/**\n * One.\n */\nexport type A = 1;\n".toList

def sampleEntries : List (String × Node) :=
  [("a.ts", .file documentedSource), ("b", .dir [("c.ts", .file [])])]

theorem sampleEntries_linkFree : (Node.dir sampleEntries).LinkFree := by
  refine .dir (List.forall_mem_cons.mpr ⟨.file _, ?_⟩)
  exact List.forall_mem_singleton.mpr (.single _ _)

theorem sampleEntries_proper : (Node.dir sampleEntries).Proper := by
  refine .dir (by decide) (by decide) (List.forall_mem_cons.mpr ⟨.file _, ?_⟩)
  exact List.forall_mem_singleton.mpr (.single (by decide) _)

theorem sample_unique : sampleProject.unique (sampleTree sampleEntries) =
    [sourceAt [] ["a.ts"], sourceAt [] ["b", "c.ts"]] := by
  have sources : sampleProject.sources (sampleTree sampleEntries) =
      [sourceAt [] ["a.ts"], sourceAt [] ["b", "c.ts"]] :=
    sampleProject_sources sampleEntries_linkFree rfl (by decide +kernel) (by decide +kernel)
  rw [Project.unique, sources]
  decide +kernel

theorem sample_documented :
    sampleProject.documentOf (sourceAt [] ["a.ts"]) documentedSource ∈
      (sampleProject.generate (sampleTree sampleEntries)).report.documents := by
  have h := Project.Grounded.of_node sampleEntries_linkFree sampleProject_ordinary sampleTree_rooted
  have first : sourceAt [] ["a.ts"] ∈ sampleProject.unique (sampleTree sampleEntries) := by
    rw [sample_unique]
    exact List.mem_cons_self
  have sited := sited_of_mem_sources h sampleEntries_proper sampleTree_rooted (unique_subset first)
  have place : sampleProject.pagePlace [] (sourceAt [] ["a.ts"]) = ["docs", "a.md"] := by
    decide +kernel
  have file : (sampleTree sampleEntries).top.seen? (sourceAt [] ["a.ts"]).path.steps =
      some (.file documentedSource) := rfl
  have clear : ¬ (sampleTree sampleEntries).top.Blocked ["docs"] := by
    rintro ⟨place, bytes, inside, found⟩
    rcases List.prefix_concat_iff.mp (show place <+: [] ++ ["docs"] from inside) with rfl | above
    · cases found
    · rw [List.prefix_nil.mp above] at found
      cases found
  obtain ⟨-, v, -, -, processed⟩ := Project.process_written h sited rfl file
    (by rwa [place]) (by decide +kernel) (by rw [place]; exact nofun)
  refine Project.mem_documents.mpr ⟨⟨sourceAt [] ["a.ts"], _⟩, ?_, rfl⟩
  change _ ∈ (sampleProject.processAll _ (sampleProject.unique _)).2
  rw [sample_unique, Project.processAll_cons, processed]
  exact List.mem_cons_self

def RunOutcome.HasOutput (r : RunOutcome) (place : Location) : Prop :=
  ∃ d ∈ r.report.documents, ∃ n, r.tree.node? d.output = .ok (place, n)

/-- A run of a project that writes the pages of its documents and nothing else. -/
structure RunOutcome.Faithful (r : RunOutcome) (p : Project) (t : FileTree) : Prop where
  pages : ∀ d ∈ r.report.documents, ∃ bytes,
    t.read (p.config.root.join d.source) = .ok bytes ∧
      r.tree.read d.output =
        .ok (Text.encode (pageOfSource p.repository d.source.text (sourceText bytes)).toList) ∧
      d.units = (extract (sourceText bytes)).length ∧
      d.types = countKind .type (extract (sourceText bytes)) ∧
      d.functions = countKind .function (extract (sourceText bytes))
  linkFree : r.tree.top.LinkFree
  others : ∀ place, ¬ r.HasOutput place → ∀ bytes,
    (r.tree.top.seen? place = some (.file bytes) ↔ t.top.seen? place = some (.file bytes))
  sources : ∀ f ∈ p.sources t, ∃ bytes, t.read f.path = .ok bytes ∧ r.tree.read f.path = .ok bytes

/-- A run writes the pages of its documents, made from the sources as they stood before, and changes
no other file. -/
theorem generate_faithful {p : Project} {t : FileTree} {root : Location}
    {entries : List (String × Node)} (free : t.top.LinkFree) (proper : t.top.Proper)
    (wet : p.config.dryRun = false) (ordinary : p.config.outputDir.Ordinary)
    (rooted : t.node? p.config.root = .ok (root, .dir entries)) : (p.generate t).Faithful p t := by
  have h := Project.Grounded.of_node free ordinary rooted
  have sited : ∀ f ∈ p.sources t, Sited t root p.config.outputDir.steps f :=
    fun f member => sited_of_mem_sources h proper rooted member
  have sources : ∀ f ∈ p.sources t, ∃ bytes, t.top.seen? f.path.steps = some (.file bytes) :=
    fun f member => (sited f member).source
  have run : p.Documents root t (p.generate t).tree (p.processAll t (p.unique t)).2 :=
    Project.documents_processAll h wet (fun f member => sited f (unique_subset member))
      (h.unique_places sited) fun f member => sources f (unique_subset member)
  have member : ∀ r ∈ (p.processAll t (p.unique t)).2, r.file ∈ p.sources t :=
    fun r inside => unique_subset (Project.file_mem_of_mem_results inside)
  have documents : ∀ d, d ∈ (p.generate t).report.documents ↔
      ∃ r ∈ (p.processAll t (p.unique t)).2, r.outcome = .ok d := fun d => Project.mem_documents
  refine ⟨?_, run.linkFree, ?_, ?_⟩
  · intro d inside
    obtain ⟨r, made, done⟩ := (documents d).mp inside
    obtain ⟨bytes, file, document, page⟩ := run.node?_output h made done (sited _ (member r made))
    obtain ⟨dirs, name, site⟩ := sited _ (member r made)
    have leads := h.source_leads site
    rw [site.path_steps] at file
    refine ⟨bytes, ?_, ?_, ?_⟩
    · rw [document]
      exact leads.read_eq free file
    · rw [FileTree.read, page, document]
      rfl
    · rw [document]
      exact Project.documentOf_counts p r.file bytes
  · intro place apart bytes
    have other : ∀ r ∈ (p.processAll t (p.unique t)).2, ∀ d, r.outcome = .ok d →
        place ≠ p.pagePlace root r.file := by
      rintro r made d done rfl
      obtain ⟨bytes, -, -, page⟩ := run.node?_output h made done (sited _ (member r made))
      exact apart ⟨d, (documents d).mpr ⟨r, made, done⟩, _, page⟩
    exact run.file_iff other
  · intro f inside
    obtain ⟨bytes, file⟩ := sources f inside
    obtain ⟨dirs, name, site⟩ := sited f inside
    refine ⟨bytes, site.read_eq h file, site.read_eq (run.grounded h) ?_⟩
    apply run.kept _ _ file
    exact fun r made d done => h.source_ne_page (sited f inside) (sited _ (member r made))

theorem generate_faithful_sample :
    (sampleProject.generate (sampleTree sampleEntries)).Faithful sampleProject
      (sampleTree sampleEntries) ∧
    ∃ d ∈ (sampleProject.generate (sampleTree sampleEntries)).report.documents,
      d.source = ⟨"a.ts"⟩ ∧ d.units = 1 ∧ d.types = 1 ∧ d.functions = 0 ∧
      (sampleProject.generate (sampleTree sampleEntries)).tree.read d.output =
        .ok (Text.encode ("## type A\n```javascript\nexport type A = 1;\n\n```\n" ++
          "/**\n * One.\n */\n[View source](/blob/main/a.ts#L3-L4)").toList) := by
  have faithful := generate_faithful sampleEntries_linkFree sampleEntries_proper rfl
    sampleProject_ordinary sampleTree_rooted
  obtain ⟨bytes, read, page, units, types, functions⟩ := faithful.pages _ sample_documented
  have leads : (sampleTree sampleEntries).Leads ⟨"./a.ts"⟩ [] ([] ++ ["a.ts"]) :=
    sampleTree_leads (by decide) (by decide) ⟨[['.']], by decide⟩
  have source : (sampleTree sampleEntries).read ⟨"./a.ts"⟩ = .ok documentedSource :=
    leads.read_eq sampleEntries_linkFree rfl
  cases source.symm.trans read
  have text : pageOfSource sampleProject.repository "a.ts" (sourceText documentedSource) =
      "## type A\n```javascript\nexport type A = 1;\n\n```\n" ++
        "/**\n * One.\n */\n[View source](/blob/main/a.ts#L3-L4)" := by
    decide +kernel
  refine ⟨faithful, _, sample_documented, rfl, ?_, ?_, ?_, ?_⟩
  · rw [units]
    decide +kernel
  · rw [types]
    decide +kernel
  · rw [functions]
    decide +kernel
  · rw [page, ← text]
    rfl

end SourcePages
