import SourcePages.Proofs.Project.Accounts

namespace SourcePages

def FileFault.IsOutput : FileFault → Prop
  | .read _ _ => False
  | .createDir _ _ => True
  | .write _ _ => True

/-- What becomes of a file in a dry run, and what in a run that writes. -/
inductive Rehearses : Result → Result → Prop where
  | same (r : Result) : Rehearses r r
  | unwritten {f : SourceFile} {d : Document} {e : FileFault} (output : e.IsOutput) :
      Rehearses ⟨f, .ok d⟩ ⟨f, .error e⟩

def Result.failure? (r : Result) : Option Failure := r.fault?.map fun e => r.file.failure e.message

theorem documents_rehearsed {dry wet : List Result} (all : List.Forall₂ Rehearses dry wet) :
    (wet.filterMap Result.document?).Sublist (dry.filterMap Result.document?) := by
  induction all with
  | nil => exact .refl _
  | @cons a b dry wet first later ih =>
    cases first with
    | same =>
      cases made : a.document? with
      | none => rwa [List.filterMap_cons_none made, List.filterMap_cons_none made]
      | some d =>
        rw [List.filterMap_cons_some made, List.filterMap_cons_some made]
        exact ih.cons_cons d
    | @unwritten f d e output =>
      have written : (⟨f, .ok d⟩ : Result).document? = some d := rfl
      rw [List.filterMap_cons_none rfl, List.filterMap_cons_some written]
      exact ih.cons d

theorem failures_rehearsed {dry wet : List Result} (all : List.Forall₂ Rehearses dry wet) :
    (dry.filterMap Result.failure?).Sublist (wet.filterMap Result.failure?) ∧
      ∃ unwritten : List Failure,
        (wet.filterMap Result.failure?).Perm (dry.filterMap Result.failure? ++ unwritten) ∧
        (∀ x ∈ unwritten, ∃ f : SourceFile, ∃ e : FileFault, e.IsOutput ∧ x = f.failure e.message) ∧
        (unwritten = [] → wet = dry) := by
  induction all with
  | nil => exact ⟨.refl _, [], .refl _, by simp, fun _ => rfl⟩
  | @cons a b dry wet first later ih =>
    obtain ⟨kept, unwritten, parts, outputs, none⟩ := ih
    cases first with
    | same =>
      cases failed : a.failure? with
      | none =>
        rw [List.filterMap_cons_none failed, List.filterMap_cons_none failed]
        exact ⟨kept, unwritten, parts, outputs, fun nothing => by rw [none nothing]⟩
      | some x =>
        rw [List.filterMap_cons_some failed, List.filterMap_cons_some failed]
        exact ⟨kept.cons_cons x, unwritten, parts.cons x, outputs, fun nothing => by rw [none nothing]⟩
    | @unwritten f d e output =>
      have failed : (⟨f, .error e⟩ : Result).failure? = some (f.failure e.message) := rfl
      have written : (⟨f, .ok d⟩ : Result).failure? = Option.none := rfl
      rw [List.filterMap_cons_some failed, List.filterMap_cons_none written]
      refine ⟨kept.cons _, f.failure e.message :: unwritten, ?_, ?_, nofun⟩
      · exact (parts.cons _).trans List.perm_middle.symm
      · exact List.forall_mem_cons.mpr ⟨⟨f, e, output, rfl⟩, outputs⟩

namespace Project

def withDryRun (p : Project) (dry : Bool) : Project :=
  { p with config := { p.config with dryRun := dry } }

section

variable {p : Project} {s t : FileTree} {f : SourceFile}

theorem process_dry (p : Project) (t : FileTree) (f : SourceFile) :
    ((p.withDryRun true).process t f).1 = t := by
  unfold process
  split
  · rfl
  · rfl

theorem process_rehearsed (same : s.read f.path = t.read f.path) :
    Rehearses ⟨f, ((p.withDryRun true).process t f).2⟩ ⟨f, ((p.withDryRun false).process s f).2⟩ := by
  unfold process
  rw [same]
  cases t.read f.path with
  | error e => exact .same _
  | ok bytes =>
    simp only [withDryRun, Bool.false_eq_true, if_true, if_false]
    split
    · exact .same _
    · rename_i failed
      have ended := congrArg Prod.snd failed
      rcases writePage_error ended with ⟨directory, fault, -, rfl⟩ | ⟨fault, rfl⟩
      · exact .unwritten trivial
      · exact .unwritten trivial

theorem processAll_dry (p : Project) (t : FileTree) (files : List SourceFile) :
    ((p.withDryRun true).processAll t files).1 = t := by
  induction files with
  | nil => rfl
  | cons f rest ih => rw [processAll_cons, process_dry, ih]

/-- Files that can be read as at first when it is their turn. -/
def ReadsInTurn (p : Project) (t s : FileTree) (files : List SourceFile) : Prop :=
  ∀ before f after, files = before ++ f :: after →
    (p.processAll s before).1.read f.path = t.read f.path

theorem ReadsInTurn.cons {rest : List SourceFile} (h : p.ReadsInTurn t s (f :: rest)) :
    s.read f.path = t.read f.path ∧ p.ReadsInTurn t (p.process s f).1 rest := by
  refine ⟨h [] f rest rfl, ?_⟩
  intro before g after parts
  exact h (f :: before) g after (by rw [parts, List.cons_append])

theorem processAll_rehearsed {files : List SourceFile}
    (turns : (p.withDryRun false).ReadsInTurn t s files) :
    List.Forall₂ Rehearses ((p.withDryRun true).processAll t files).2
      ((p.withDryRun false).processAll s files).2 := by
  -- The dry run stays in the first tree while the other one goes on from tree to tree.
  induction files generalizing s with
  | nil => exact .nil
  | cons f rest ih =>
    obtain ⟨same, later⟩ := turns.cons
    rw [processAll_cons, processAll_cons, process_dry]
    exact .cons (process_rehearsed same) (ih later)

theorem readsInTurn_of_grounded {root : Location} {out : List String} (h : p.Grounded t root out)
    (wet : p.config.dryRun = false) {files : List SourceFile} (sited : ∀ f ∈ files, Sited t root out f)
    (places : files.Pairwise fun f g => p.pagePlace root f ≠ p.pagePlace root g) :
    p.ReadsInTurn t t files := by
  rintro before f after rfl
  have earlier : ∀ g ∈ before, Sited t root out g :=
    fun g member => sited g (List.mem_append_left _ member)
  have run := documents_processAll h wet earlier (List.pairwise_append.mp places).1
    fun g member => (earlier g member).source
  have own := sited f (by simp)
  obtain ⟨bytes, file⟩ := own.source
  have still := run.kept _ _ file fun r member d done =>
    h.source_ne_page own (earlier _ (file_mem_of_mem_results member))
  obtain ⟨dirs, name, site⟩ := own
  rw [site.read_eq h file, site.read_eq (run.grounded h) still]

theorem readsInTurn_of_single {files : List SourceFile}
    (same : ∀ f ∈ files, ∀ g ∈ files, f = g) (distinct : files.Nodup) : p.ReadsInTurn t t files := by
  rintro before f after rfl
  cases before with
  | nil => rfl
  | cons g rest =>
    have equal := same g (by simp) f (by simp)
    rw [equal] at distinct
    simp at distinct

theorem readsInTurn_unique (free : t.top.LinkFree) (proper : t.top.Proper)
    (ordinary : p.config.outputDir.Ordinary) (wet : p.config.dryRun = false) :
    p.ReadsInTurn t t (p.unique t) := by
  by_cases rooted : ∃ root entries, t.node? p.config.root = .ok (root, .dir entries)
  · obtain ⟨root, entries, found⟩ := rooted
    have h := Grounded.of_node free ordinary found
    have sites : ∀ f ∈ p.sources t, Sited t root p.config.outputDir.steps f :=
      fun f member => sited_of_mem_sources h proper found member
    exact readsInTurn_of_grounded h wet (fun f member => sites f (unique_subset member))
      (h.unique_places sites)
  · apply readsInTurn_of_single _ (unique_nodup p t)
    intro f first g second
    exact eq_of_mem_sources rooted (unique_subset first) (unique_subset second)

end

end Project

/-- A dry run that agrees with a run on what it finds, and tells all but what cannot be written. -/
structure RunOutcome.Foretells (dry real : RunOutcome) (collided : List Failure) : Prop where
  found : dry.report.stats.found = real.report.stats.found
  documents : real.report.documents.Sublist dry.report.documents
  failures : ∃ early late unwritten : List Failure,
    dry.report.failures = collided ++ early ∧ real.report.failures = collided ++ late ∧
    early.Sublist late ∧ late.Perm (early ++ unwritten) ∧
    (∀ x ∈ unwritten, ∃ f : SourceFile, ∃ e : FileFault, e.IsOutput ∧ x = f.failure e.message) ∧
    (unwritten = [] →
      dry.report = { real.report with metadata := { real.report.metadata with dryRun := true } })

/-- A dry run changes nothing and agrees with the run that writes: it finds the same files, the same
of them collide, and the two differ only in files whose directory or page cannot be made. -/
theorem dry_run_foretells (p : Project) {t : FileTree} (free : t.top.LinkFree)
    (proper : t.top.Proper) (ordinary : p.config.outputDir.Ordinary) :
    ((p.withDryRun true).generate t).tree = t ∧
      (p.withDryRun true).sources t = (p.withDryRun false).sources t ∧
      ((p.withDryRun true).generate t).Foretells ((p.withDryRun false).generate t)
        ((splitFiles p.config.outputRoot [] (p.sources t)).collided.map
          fun c => c.file.failure c.message) := by
  have turns := Project.readsInTurn_unique (p := p.withDryRun false) free proper ordinary rfl
  have results := Project.processAll_rehearsed turns
  obtain ⟨kept, unwritten, parts, outputs, none⟩ := failures_rehearsed results
  refine ⟨p.processAll_dry t _, rfl, rfl, documents_rehearsed results, _, _, unwritten, rfl, rfl,
    kept, parts, outputs, ?_⟩
  intro nothing
  have same : ((p.withDryRun false).processAll t (p.unique t)).2 =
    ((p.withDryRun true).processAll t (p.unique t)).2 := none nothing
  have report : ∀ dry, ((p.withDryRun dry).generate t).report =
      (p.withDryRun dry).report (p.sources t) (splitFiles p.config.outputRoot [] (p.sources t))
        ((p.withDryRun dry).processAll t (p.unique t)).2 := fun dry => rfl
  rw [report, report, same]
  rfl

/-- Of two files whose pages are in each other's way, the dry run documents both. -/
theorem dry_run_foretells_contested :
    ((sampleProject.withDryRun true).generate (sampleTree contestedEntries)).Foretells
      ((sampleProject.withDryRun false).generate (sampleTree contestedEntries)) [] := by
  have free : (sampleTree contestedEntries).top.LinkFree := contestedEntries_linkFree
  have told := (dry_run_foretells sampleProject free contestedEntries_proper
    sampleProject_ordinary).2.2
  have apart : (splitFiles sampleProject.config.outputRoot []
      [sourceAt [] ["a.md", "b.ts"], sourceAt [] ["a.ts"]]).collided = [] := by decide +kernel
  rw [contested_sources, apart] at told
  exact told

end SourcePages
