import SourcePages.Proofs.Project.Order
import SourcePages.Proofs.Project.Selection

namespace SourcePages

namespace Project

theorem proper_processAll {t : FileTree} (p : Project) (proper : t.top.Proper)
    (files : List SourceFile) : (p.processAll t files).1.top.Proper :=
  (p.edited_processAll t files).proper proper

section

variable {p : Project} {t s u : FileTree} {root : Location} {out : List String} {f : SourceFile}

namespace Documents

variable {results : List Result} (run : p.Documents root t s results)

include run

theorem stays {place : Location} {bytes : List UInt8}
    (file : t.top.seen? place = some (.file bytes)) :
    ∃ other, s.top.seen? place = some (.file other) := by
  by_cases page : ∃ r ∈ results, ∃ d, r.outcome = .ok d ∧ place = p.pagePlace root r.file
  · obtain ⟨r, member, d, done, rfl⟩ := page
    obtain ⟨-, bytes, -, -, written⟩ := run.written r member d done
    exact ⟨_, written⟩
  · refine ⟨bytes, run.kept place bytes file ?_⟩
    exact fun r member d done same => page ⟨r, member, d, done, same⟩

theorem blocked {place : Location} (h : t.top.Blocked place) : s.top.Blocked place := by
  obtain ⟨above, bytes, inside, file⟩ := h
  obtain ⟨other, still⟩ := run.stays file
  exact ⟨above, other, inside, still⟩

theorem stopFault {place : Location} (h : t.top.Blocked place) :
    s.stopFault place = t.stopFault place := by
  by_cases file : ∃ bytes, t.top.seen? place = some (.file bytes)
  · rw [FileTree.stopFault_of_file file]
    obtain ⟨bytes, file⟩ := file
    exact FileTree.stopFault_of_file (run.stays file)
  · rw [FileTree.stopFault_of_not_file file]
    apply FileTree.stopFault_of_not_file
    -- A file further up is still in the way, so there is nothing at the place itself.
    rintro ⟨other, late⟩
    obtain ⟨above, bytes, ⟨below, rfl⟩, early⟩ := h
    cases below with
    | nil =>
      rw [List.append_nil] at file
      exact file ⟨bytes, early⟩
    | cons name rest =>
      obtain ⟨now, still⟩ := run.stays early
      have dir : s.top.seen? above = some .dir := by
        apply Node.seen_dir_of_below
        rw [late]
        exact Option.some_ne_none _
      rw [still] at dir
      cases dir

end Documents

section

variable {bytes : List UInt8} (h : p.Grounded s root out) (sited : Sited t root out f)
  (wet : p.config.dryRun = false) (file : s.top.seen? f.path.steps = some (.file bytes))

include h sited wet file

theorem process_refused_there (dir : s.top.seen? (p.pagePlace root f).dropLast = some .dir)
    (taken : p.HasPage f → s.top.seen? (p.pagePlace root f) = some .dir) :
    p.process s f = (s, .error (.write (p.pageOf f) .isDirectory)) := by
  obtain ⟨dirs, name, site⟩ := sited
  rw [h.dropLast_pagePlace site] at dir
  rw [h.hasPage_iff site, h.pagePlace_eq site] at taken
  have refused := h.write_refused site dir (Decidable.or_iff_not_imp_left.mpr taken)
  exact process_error (site.read_eq h file) wet
    ((h.writePage_there site dir _).2 _ (refused _))

theorem process_written_there (named : p.HasPage f)
    (page : s.top.seen? (p.pagePlace root f) = some (.file (p.pageBytes f bytes))) :
    p.process s f = (s, .ok (p.documentOf f bytes)) := by
  obtain ⟨dirs, name, site⟩ := sited
  have leads := h.page_leads site (h.isName_pageFile site named)
  rw [h.pagePlace_eq site] at page
  have dir : s.top.seen? (root ++ (out ++ dirs)) = some .dir := by
    apply Node.seen_dir_of_below
    rw [page]
    exact Option.some_ne_none _
  have other : s.top.seen? (root ++ (out ++ dirs) ++ [pageFile name]) ≠ some .dir := by
    rw [page]
    simp
  have written := leads.write_eq h.free dir other (p.pageBytes f bytes)
  have same : s.put (root ++ (out ++ dirs) ++ [pageFile name]) (.file (p.pageBytes f bytes)) = s := by
    rw [FileTree.put, Node.put_self (Node.at?_of_seen_file page)]
  rw [same] at written
  exact process_ok (site.read_eq h file) wet ((h.writePage_there site dir _).1 _ written)

theorem process_again {results : List Result}
    (run : p.Documents root (p.process s f).1 u results)
    (apart : ∀ r ∈ results, p.pagePlace root f ≠ p.pagePlace root r.file)
    (source : ∀ r ∈ results, f.path.steps ≠ p.pagePlace root r.file) :
    p.process u f = (u, (p.process s f).2) := by
  have first := documents_process h sited wet file
  have grounded := run.grounded (first.grounded h)
  have still : u.top.seen? f.path.steps = some (.file bytes) := by
    apply run.kept _ _ _ fun r member _ _ => source r member
    exact source_process h sited wet file sited file
  by_cases blocked : s.top.Blocked (p.pagePlace root f).dropLast
  · obtain ⟨q, parent, stopped⟩ := process_stopped h sited wet file blocked
    rw [stopped] at run ⊢
    obtain ⟨above, same, later⟩ := process_stopped grounded sited wet still (run.blocked blocked)
    rw [parent] at same
    rw [later, run.stopFault blocked, ← Option.some.inj same]
  · by_cases taken : p.HasPage f → s.top.seen? (p.pagePlace root f) = some .dir
    · obtain ⟨v, opened, refused⟩ := process_refused h sited wet file blocked taken
      rw [refused] at run ⊢
      exact process_refused_there grounded sited wet still (run.grown _ opened.there)
        fun named => run.grown _ (opened.grown (taken named))
    · obtain ⟨named, free⟩ := Classical.not_imp.mp taken
      obtain ⟨v, w, opened, filed, written⟩ := process_written h sited wet file blocked named free
      rw [written] at run ⊢
      apply process_written_there grounded sited wet still named
      apply run.kept _ _ _ fun r member _ _ => apart r member
      rw [filed.seen, if_pos rfl]

end

theorem processAll_again (h : p.Grounded t root out) (wet : p.config.dryRun = false)
    {files : List SourceFile} (sited : ∀ f ∈ files, Sited s root out f)
    (places : files.Pairwise fun f g => p.pagePlace root f ≠ p.pagePlace root g)
    (sources : ∀ f ∈ files, ∃ bytes, t.top.seen? f.path.steps = some (.file bytes)) :
    p.processAll (p.processAll t files).1 files = p.processAll t files := by
  induction files generalizing t with
  | nil => rfl
  | cons f rest ih =>
    obtain ⟨apart, places⟩ := List.pairwise_cons.mp places
    have own := sited f List.mem_cons_self
    have others : ∀ g ∈ rest, Sited s root out g :=
      fun g member => sited g (List.mem_cons_of_mem _ member)
    obtain ⟨bytes, file⟩ := sources f List.mem_cons_self
    have first := documents_process h own wet file
    have grounded := first.grounded h
    have remaining : ∀ g ∈ rest, ∃ bytes,
        (p.process t f).1.top.seen? g.path.steps = some (.file bytes) := by
      intro g member
      obtain ⟨bytes, there⟩ := sources g (List.mem_cons_of_mem _ member)
      exact ⟨bytes, source_process h own wet file (others g member) there⟩
    have run := documents_processAll grounded wet others places remaining
    have again : p.process (p.processAll (p.process t f).1 rest).1 f =
        ((p.processAll (p.process t f).1 rest).1, (p.process t f).2) := by
      apply process_again h own wet file run
      · exact fun r member => apart _ (file_mem_of_mem_results member)
      · exact fun r member => h.source_ne_page own (others _ (file_mem_of_mem_results member))
    rw [processAll_cons p t, processAll_cons, again, ih grounded others places remaining]

theorem run_congr {files : List SourceFile}
    (same : p.processAll s (splitFiles p.config.outputRoot [] files).unique =
      p.processAll t (splitFiles p.config.outputRoot [] files).unique) :
    p.run s files = p.run t files := by
  simp only [run, same]

theorem Documents.sources_eq {results : List Result} (run : p.Documents root t s results)
    (h : p.Grounded t root out)
    (proper : t.top.Proper) (still : s.top.Proper)
    (sited : ∀ r ∈ results, Sited t root out r.file) : p.sources s = p.sources t := by
  obtain ⟨entries, here⟩ := h.rooted
  obtain ⟨others, there⟩ := (run.grounded h).rooted
  refine sources_ext still proper there here fun names => ?_
  rw [(run.grounded h).picks_iff still, h.picks_iff proper]
  refine and_congr_right fun admits => ⟨?_, ?_⟩
  · rintro ⟨bytes, file⟩
    rcases run.found _ _ file with before | ⟨r, member, d, done, page⟩
    · exact ⟨bytes, before⟩
    · -- A page is in the directory that the scan does not enter.
      obtain ⟨dirs, name, site⟩ := sited r member
      rw [h.pagePlace_eq site, List.append_assoc, List.append_assoc] at page
      have nothing := admits.apart _ (List.append_cancel_left page)
      simp at nothing
  · rintro ⟨bytes, file⟩
    exact run.stays file

end

end Project

/-- A second run comes to the same as the first one and leaves the tree as it is. -/
theorem generate_again {p : Project} {t : FileTree} {root : Location}
    {entries : List (String × Node)} (free : t.top.LinkFree) (proper : t.top.Proper)
    (wet : p.config.dryRun = false) (ordinary : p.config.outputDir.Ordinary)
    (rooted : t.node? p.config.root = .ok (root, .dir entries)) :
    p.generate (p.generate t).tree = p.generate t := by
  have h := Project.Grounded.of_node free ordinary rooted
  have sites : ∀ f ∈ p.sources t, Sited t root p.config.outputDir.steps f :=
    fun f member => sited_of_mem_sources h proper rooted member
  have sited : ∀ f ∈ p.unique t, Sited t root p.config.outputDir.steps f :=
    fun f member => sites f (unique_subset member)
  have sources : ∀ f ∈ p.unique t, ∃ bytes, t.top.seen? f.path.steps = some (.file bytes) :=
    fun f member => (sited f member).source
  have run := Project.documents_processAll h wet sited (h.unique_places sites) sources
  have found : p.sources (p.processAll t (p.unique t)).1 = p.sources t := by
    apply run.sources_eq h proper (p.proper_processAll proper _)
    exact fun r member => sited _ (Project.file_mem_of_mem_results member)
  have again := Project.processAll_again h wet sited (h.unique_places sites) sources
  have tree : (p.generate t).tree = (p.processAll t (p.unique t)).1 := rfl
  rw [tree, Project.generate, found]
  exact Project.run_congr again

theorem generate_again_contested :
    sampleProject.generate (sampleProject.generate (sampleTree contestedEntries)).tree =
      sampleProject.generate (sampleTree contestedEntries) :=
  generate_again contestedEntries_linkFree contestedEntries_proper rfl sampleProject_ordinary
    sampleTree_rooted

end SourcePages
