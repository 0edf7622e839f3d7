import SourcePages.Project.Run
import SourcePages.Proofs.FileTree.Growth
import SourcePages.Proofs.Path.Page
import SourcePages.Proofs.Project.Sources

namespace SourcePages

def sourceText (bytes : List UInt8) : String := String.ofList (Text.decodeLossy bytes)

namespace Project

def pageOf (p : Project) (f : SourceFile) : Path := pagePath p.config.outputRoot ⟨f.relative⟩

def pagePlace (p : Project) (root : Location) (f : SourceFile) : Location :=
  root ++ (p.pageOf f).steps.drop p.config.root.steps.length

/-- Whether the page of a file has a name of its own. -/
def HasPage (p : Project) (f : SourceFile) : Prop := (p.pageOf f).steps.getLast? ≠ some ".."

instance (p : Project) (f : SourceFile) : Decidable (p.HasPage f) :=
  inferInstanceAs (Decidable ((p.pageOf f).steps.getLast? ≠ some ".."))

def documentOf (p : Project) (f : SourceFile) (bytes : List UInt8) : Document :=
  Document.ofUnits ⟨f.relative⟩ (p.pageOf f) (extract (sourceText bytes))

def pageBytes (p : Project) (f : SourceFile) (bytes : List UInt8) : List UInt8 :=
  Text.encode (pageOfSource p.repository f.relative (sourceText bytes)).toList

end Project

theorem edited_writePage (t : FileTree) (output : Path) (text : String) :
    t.Edited (writePage t output text).1 := by
  unfold writePage
  dsimp only
  split
  · split
    · rename_i written
      exact .written (.refl t) written
    · exact .refl t
  · rename_i parent _
    have made := t.edited_makeDirectories parent
    split
    · rename_i opened
      rw [opened] at made
      split
      · rename_i written
        exact .written made written
      · exact made
    · rename_i opened
      rwa [opened] at made

theorem Project.edited_process (p : Project) (t : FileTree) (f : SourceFile) :
    t.Edited (p.process t f).1 := by
  unfold process
  split
  · exact .refl t
  · dsimp only
    split
    · exact .refl t
    · rename_i bytes _ _
      have page := edited_writePage t (pagePath p.config.outputRoot ⟨f.relative⟩)
        (page p.repository.baseUrl f.relative (extract (String.ofList (Text.decodeLossy bytes))))
      split
      · rename_i written
        rwa [written] at page
      · rename_i written
        rwa [written] at page

section

variable {p : Project} {t s u : FileTree} {root : Location} {out : List String} {f : SourceFile}
  {dirs : List String} {name : String}

theorem writePage_made {output parent : Path} (above : output.parent? = some parent)
    (made : s.makeDirectories parent = (u, .ok ())) (text : String) :
    (∀ v, u.write output (Text.encode text.toList) = .ok v →
      writePage s output text = (v, .ok ())) ∧
    ∀ e, u.write output (Text.encode text.toList) = .error e →
      writePage s output text = (u, .error (.write output e)) := by
  constructor
  · intro v written
    simp only [writePage, above, made, written]
  · intro e refused
    simp only [writePage, above, made, refused]

theorem Site.leads (site : Site t root out f dirs name) (top : s.top.seen? [] = some .dir) :
    s.Leads f.path [] (root ++ dirs ++ [name]) := by
  have listed : dirs ++ [name] ≠ [] := by simp
  have relative := relative_joined site.proper listed
  have filled : root.path.text ≠ "" := by simp [Location.path]
  have steps := steps_below site.rootProper site.proper listed
  have anchor : f.path.anchor = ['/'] := by
    rw [site.file]
    exact anchor_joined site.proper listed
  refine ⟨⟨[], ?_, ?_⟩, ?_, ?_⟩
  · rw [List.nil_append, List.append_assoc, site.file]
    exact steps
  · rw [FileTree.start, Path.isAbsolute_eq, anchor]
    exact .done top
  · intro part member
    rw [List.append_assoc] at member
    rcases List.mem_append.mp member with member | member
    · exact site.rootProper part member
    · exact site.proper part member
  · intro before last split
    obtain ⟨-, same⟩ := List.append_inj' split rfl
    cases same
    rw [site.file]
    exact (endsIn_joined site.proper rfl).join filled relative

namespace Project.Grounded

theorem mono (h : p.Grounded t root out) (free : s.top.LinkFree)
    (same : s.workingDir = t.workingDir)
    (grown : ∀ location, t.top.seen? location = some .dir → s.top.seen? location = some .dir) :
    p.Grounded s root out := by
  refine ⟨free, h.filled, ?_, h.relative, h.steps, h.proper, h.listed⟩
  rw [FileTree.start, same]
  exact h.passes.mono grown

theorem page_spec (h : p.Grounded s root out) (site : Site t root out f dirs name) :
    (p.pageOf f).anchor = p.config.root.anchor ∧
      (p.pageOf f).steps = p.config.root.steps ++ (out ++ dirs) ++ [pageFile name] ∧
      (p.pageOf f).EndsIn (pageFile name) := by
  obtain ⟨anchor, steps, ends⟩ := pagePath_spec site.proper _
  rw [site.file]
  refine ⟨anchor.trans h.anchor_outputRoot, ?_, ends⟩
  rw [h.steps_outputRoot, List.append_assoc p.config.root.steps] at steps
  exact steps

theorem source_leads (h : p.Grounded s root out) (site : Site t root out f dirs name) :
    s.Leads (p.config.root.join ⟨f.relative⟩) root (dirs ++ [name]) := by
  have listed : dirs ++ [name] ≠ [] := by simp
  have relative := relative_joined site.proper listed
  have steps := Path.steps_join h.filled relative
  have anchor := Path.anchor_join h.filled relative
  rw [steps_joined site.proper listed] at steps
  rw [site.file]
  refine ⟨⟨p.config.root.steps, steps, ?_⟩, site.proper, ?_⟩
  · rw [sourceAt, relativeText, FileTree.start_eq_of_anchor anchor]
    exact h.passes
  · intro before last split
    exact (endsIn_joined site.proper split).join h.filled relative

theorem page_parent (h : p.Grounded s root out) (site : Site t root out f dirs name) :
    ∃ q, (p.pageOf f).parent? = some q ∧ q.anchor = p.config.root.anchor ∧
      q.steps = p.config.root.steps ++ (out ++ dirs) ∧ s.Leads q root (out ++ dirs) := by
  obtain ⟨anchor, steps, -⟩ := h.page_spec site
  obtain ⟨q, parent, same, stepsCut, ends⟩ := Path.exists_parent steps
  refine ⟨q, parent, same.trans anchor, stepsCut, ⟨p.config.root.steps, stepsCut, ?_⟩, ?_, ?_⟩
  · rw [FileTree.start_eq_of_anchor (same.trans anchor)]
    exact h.passes
  · intro part member
    rcases List.mem_append.mp member with member | member
    · exact h.proper part member
    · exact site.proper part (List.mem_append_left _ member)
  · intro before last split
    exact ends (p.config.root.steps ++ before) last (by rw [split, List.append_assoc])

theorem page_leads (h : p.Grounded s root out) (site : Site t root out f dirs name)
    (named : IsName (pageFile name)) : s.Leads (p.pageOf f) root (out ++ dirs ++ [pageFile name]) := by
  obtain ⟨anchor, steps, ends⟩ := h.page_spec site
  refine ⟨⟨p.config.root.steps, by rw [steps, List.append_assoc], ?_⟩, ?_, ?_⟩
  · rw [FileTree.start_eq_of_anchor anchor]
    exact h.passes
  · intro part member
    rcases List.mem_append.mp member with member | member
    · obtain ⟨q, -, -, -, leads⟩ := h.page_parent site
      exact leads.proper part member
    · rw [List.mem_singleton.mp member]
      exact named
  · intro before last split
    obtain ⟨-, same⟩ := List.append_inj' split rfl
    cases same
    exact ends

theorem page_passes (h : p.Grounded s root out) (site : Site t root out f dirs name)
    (up : pageFile name = "..") (dir : s.top.seen? (root ++ (out ++ dirs)) = some .dir) :
    (p.pageOf f).text ≠ "" ∧ s.top.Passes (s.start (p.pageOf f)) (p.pageOf f).steps
      (root ++ (out ++ dirs)).dropLast := by
  obtain ⟨anchor, steps, -⟩ := h.page_spec site
  obtain ⟨q, -, -, -, leads⟩ := h.page_parent site
  have above : s.top.seen? (root ++ (out ++ dirs)).dropLast = some .dir :=
    Node.seen_dir_above (List.dropLast_prefix _) dir
  constructor
  · intro empty
    have nothing : (p.pageOf f).steps = [] := by
      rw [Path.steps_eq_segments, empty]
      decide
    rw [nothing] at steps
    simp at steps
  · rw [FileTree.start_eq_of_anchor anchor, steps, up]
    refine (h.passes.append (Node.passes_names leads.plain dir)).append (.step dir ?_)
    rw [if_pos rfl]
    exact .done above

theorem writePage_stopped (h : p.Grounded s root out) (site : Site t root out f dirs name)
    (blocked : s.top.Blocked (root ++ (out ++ dirs))) {q : Path}
    (parent : (p.pageOf f).parent? = some q) (text : String) :
    writePage s (p.pageOf f) text =
      (s, .error (.createDir q (s.stopFault (root ++ (out ++ dirs))))) := by
  obtain ⟨above, same, -, -, leads⟩ := h.page_parent site
  rw [parent] at same
  cases same
  simp only [writePage, parent, FileTree.makeDirectories_stopped h.free leads blocked]

theorem writePage_opened (h : p.Grounded s root out) (site : Site t root out f dirs name)
    (clear : ¬ s.top.Blocked (root ++ (out ++ dirs))) (text : String) :
    ∃ u, s.Opened u (root ++ (out ++ dirs)) ∧ p.Grounded u root out ∧
      (∀ v, u.write (p.pageOf f) (Text.encode text.toList) = .ok v →
        writePage s (p.pageOf f) text = (v, .ok ())) ∧
      ∀ e, u.write (p.pageOf f) (Text.encode text.toList) = .error e →
        writePage s (p.pageOf f) text = (u, .error (.write (p.pageOf f) e)) := by
  obtain ⟨q, parent, -, -, leads⟩ := h.page_parent site
  obtain ⟨u, made, opened⟩ := FileTree.makeDirectories_clear h.free leads clear
  refine ⟨u, opened, h.mono (opened.linkFree h.free) opened.workingDir fun _ => opened.grown, ?_⟩
  exact writePage_made parent made text

theorem writePage_there (h : p.Grounded s root out) (site : Site t root out f dirs name)
    (dir : s.top.seen? (root ++ (out ++ dirs)) = some .dir) (text : String) :
    (∀ v, s.write (p.pageOf f) (Text.encode text.toList) = .ok v →
      writePage s (p.pageOf f) text = (v, .ok ())) ∧
    ∀ e, s.write (p.pageOf f) (Text.encode text.toList) = .error e →
      writePage s (p.pageOf f) text = (s, .error (.write (p.pageOf f) e)) := by
  obtain ⟨q, parent, -, -, leads⟩ := h.page_parent site
  exact writePage_made parent (FileTree.makeDirectories_there (leads.passes_there dir)) text

theorem write_refused (h : p.Grounded s root out) (site : Site t root out f dirs name)
    (dir : s.top.seen? (root ++ (out ++ dirs)) = some .dir)
    (taken : pageFile name = ".." ∨
      s.top.seen? (root ++ (out ++ dirs) ++ [pageFile name]) = some .dir) (bytes : List UInt8) :
    s.write (p.pageOf f) bytes = .error .isDirectory := by
  -- A page without a name leads to the directory above its own, which is there.
  have last : IsName name := site.proper name (by simp)
  rcases pageFile_cases last with up | named
  · obtain ⟨filled, passes⟩ := h.page_passes site up dir
    exact FileTree.write_passes filled passes _
  · have page := taken.resolve_left named.not_up
    have leads := h.page_leads site named
    rw [List.append_assoc] at page
    exact leads.write_refused h.free page _

theorem writePage_refused (h : p.Grounded s root out) (site : Site t root out f dirs name)
    (clear : ¬ s.top.Blocked (root ++ (out ++ dirs)))
    (taken : pageFile name = ".." ∨
      s.top.seen? (root ++ (out ++ dirs) ++ [pageFile name]) = some .dir) (text : String) :
    ∃ u, s.Opened u (root ++ (out ++ dirs)) ∧
      writePage s (p.pageOf f) text = (u, .error (.write (p.pageOf f) .isDirectory)) := by
  obtain ⟨u, opened, grounded, -, refused⟩ := h.writePage_opened site clear text
  refine ⟨u, opened, refused .isDirectory ?_⟩
  exact grounded.write_refused site opened.there (taken.imp_right opened.grown) _

theorem writePage_written (h : p.Grounded s root out) (site : Site t root out f dirs name)
    (clear : ¬ s.top.Blocked (root ++ (out ++ dirs))) (named : IsName (pageFile name))
    (free : s.top.seen? (root ++ (out ++ dirs) ++ [pageFile name]) ≠ some .dir) (text : String) :
    ∃ u v, s.Opened u (root ++ (out ++ dirs)) ∧
      u.Filed v (root ++ (out ++ dirs) ++ [pageFile name]) (Text.encode text.toList) ∧
      writePage s (p.pageOf f) text = (v, .ok ()) := by
  obtain ⟨u, opened, grounded, written, -⟩ := h.writePage_opened site clear text
  have leads := grounded.page_leads site named
  have other : u.top.seen? (root ++ (out ++ dirs) ++ [pageFile name]) ≠ some .dir := by
    rw [opened.seen, if_neg (Location.not_concat_inside _ _)]
    exact free
  exact ⟨u, _, opened, .put opened.there other,
    written _ (leads.write_eq grounded.free opened.there other _)⟩

theorem pagePlace_eq (h : p.Grounded s root out) (site : Site t root out f dirs name) :
    p.pagePlace root f = root ++ (out ++ dirs) ++ [pageFile name] := by
  obtain ⟨-, steps, -⟩ := h.page_spec site
  rw [Project.pagePlace, steps, List.append_assoc, List.drop_left, List.append_assoc root]

theorem dropLast_pagePlace (h : p.Grounded s root out) (site : Site t root out f dirs name) :
    (p.pagePlace root f).dropLast = root ++ (out ++ dirs) := by
  rw [h.pagePlace_eq site, List.dropLast_concat]

theorem hasPage_iff (h : p.Grounded s root out) (site : Site t root out f dirs name) :
    p.HasPage f ↔ pageFile name ≠ ".." := by
  obtain ⟨-, steps, -⟩ := h.page_spec site
  rw [Project.HasPage, steps, List.getLast?_concat]
  simp

theorem isName_pageFile (h : p.Grounded s root out) (site : Site t root out f dirs name)
    (named : p.HasPage f) : IsName (pageFile name) := by
  have last : IsName name := site.proper name (by simp)
  exact (pageFile_cases last).resolve_left ((h.hasPage_iff site).mp named)

end Project.Grounded

theorem Site.path_steps (site : Site t root out f dirs name) :
    f.path.steps = root ++ (dirs ++ [name]) := by
  rw [site.file]
  exact steps_below site.rootProper site.proper (by simp)

theorem Sited.source (sited : Sited t root out f) :
    ∃ bytes, t.top.seen? f.path.steps = some (.file bytes) := by
  obtain ⟨dirs, name, site⟩ := sited
  rw [site.path_steps]
  exact site.there

theorem Site.read_eq (site : Site t root out f dirs name) (h : p.Grounded s root out)
    {bytes : List UInt8} (file : s.top.seen? f.path.steps = some (.file bytes)) :
    s.read f.path = .ok bytes := by
  have leads := site.leads (Node.seen_dir_above List.nil_prefix h.seen_root)
  apply leads.read_eq h.free
  rw [← file, site.path_steps, List.nil_append, List.append_assoc]

namespace Project

section

variable {bytes : List UInt8} (read : s.read f.path = .ok bytes) (wet : p.config.dryRun = false)

include read wet

theorem process_ok (written : writePage s (p.pageOf f) (pageOfSource p.repository f.relative
    (sourceText bytes)) = (u, .ok ())) : p.process s f = (u, .ok (p.documentOf f bytes)) := by
  rw [pageOf, pageOfSource, sourceText] at written
  simp only [process, read, wet, Bool.false_eq_true, if_false, written]
  rfl

theorem process_error {e : FileFault} (refused : writePage s (p.pageOf f) (pageOfSource p.repository
    f.relative (sourceText bytes)) = (u, .error e)) : p.process s f = (u, .error e) := by
  rw [pageOf, pageOfSource, sourceText] at refused
  simp only [process, read, wet, Bool.false_eq_true, if_false, refused]

end

variable {bytes : List UInt8} (h : p.Grounded s root out)
  (sited : Sited t root out f) (wet : p.config.dryRun = false)
  (file : s.top.seen? f.path.steps = some (.file bytes))

include h sited wet file

theorem process_stopped (blocked : s.top.Blocked (p.pagePlace root f).dropLast) :
    ∃ q, (p.pageOf f).parent? = some q ∧
      p.process s f = (s, .error (.createDir q (s.stopFault (p.pagePlace root f).dropLast))) := by
  obtain ⟨dirs, name, site⟩ := sited
  rw [h.dropLast_pagePlace site] at blocked ⊢
  obtain ⟨q, parent, -, -, -⟩ := h.page_parent site
  have stopped := h.writePage_stopped site blocked parent
  exact ⟨q, parent, process_error (site.read_eq h file) wet (stopped _)⟩

theorem process_refused (clear : ¬ s.top.Blocked (p.pagePlace root f).dropLast)
    (taken : p.HasPage f → s.top.seen? (p.pagePlace root f) = some .dir) :
    ∃ u, s.Opened u (p.pagePlace root f).dropLast ∧
      p.process s f = (u, .error (.write (p.pageOf f) .isDirectory)) := by
  obtain ⟨dirs, name, site⟩ := sited
  rw [h.dropLast_pagePlace site] at clear ⊢
  rw [h.hasPage_iff site, h.pagePlace_eq site] at taken
  obtain ⟨u, opened, refused⟩ :=
    h.writePage_refused site clear (Decidable.or_iff_not_imp_left.mpr taken) _
  exact ⟨u, opened, process_error (site.read_eq h file) wet refused⟩

theorem process_written (clear : ¬ s.top.Blocked (p.pagePlace root f).dropLast)
    (named : p.HasPage f) (free : s.top.seen? (p.pagePlace root f) ≠ some .dir) :
    ∃ u v, s.Opened u (p.pagePlace root f).dropLast ∧
      u.Filed v (p.pagePlace root f) (p.pageBytes f bytes) ∧
      p.process s f = (v, .ok (p.documentOf f bytes)) := by
  obtain ⟨dirs, name, site⟩ := sited
  have proper := h.isName_pageFile site named
  rw [h.dropLast_pagePlace site] at clear ⊢
  rw [h.pagePlace_eq site] at free ⊢
  obtain ⟨u, v, opened, filed, written⟩ := h.writePage_written site clear proper free _
  exact ⟨u, v, opened, filed, process_ok (site.read_eq h file) wet written⟩

end Project

end

end SourcePages
